import ContractDeploy.Table

namespace ContractDeploy

inductive JsonNumber where
  | nat (n : Nat)
  | neg (n : Int)
  | float (x : Float)
  deriving Inhabited

namespace JsonNumber

def beq : JsonNumber → JsonNumber → Bool
  | nat a, nat b => a == b
  | neg a, neg b => a == b
  | float x, float y => x == y
  | _, _ => false

end JsonNumber

inductive Json where
  | null
  | bool (b : Bool)
  | num (n : JsonNumber)
  | str (s : String)
  | arr (items : List Json)
  | obj (fields : List (String × Json))
  deriving Inhabited

namespace Json

mutual

def beq : Json → Json → Bool
  | null, null => true
  | bool a, bool b => a == b
  | num a, num b => a.beq b
  | str a, str b => a == b
  | arr as, arr bs => beqItems as bs
  | obj f, obj g => beqFields f g
  | _, _ => false

def beqItems : List Json → List Json → Bool
  | [], [] => true
  | a :: as, b :: bs => beq a b && beqItems as bs
  | _, _ => false

def beqFields : List (String × Json) → List (String × Json) → Bool
  | [], [] => true
  | (k, a) :: as, (j, b) :: bs => k == j && beq a b && beqFields as bs
  | _, _ => false

end

instance : BEq Json := ⟨beq⟩

def ofNat (n : Nat) : Json := num (.nat n)

def mkObj (fields : List (String × Json)) : Json := obj (Table.ofList fields).entries

def ofOption {α : Type} (f : α → Json) : Option α → Json
  | some a => f a
  | none => null

def field? (j : Json) (k : String) : Option Json :=
  match j with
  | obj f => (f.find? (·.1 == k)).map (·.2)
  | _ => none

def getStr? : Json → Option String
  | str s => some s
  | _ => none

def getArr? : Json → Option (List Json)
  | arr items => some items
  | _ => none

def getNat? : Json → Option Nat
  | num (.nat n) => some n
  | _ => none

end Json

end ContractDeploy
