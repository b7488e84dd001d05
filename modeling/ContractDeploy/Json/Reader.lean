import ContractDeploy.Json.Number

namespace ContractDeploy

inductive JsonTree where
  | null
  | bool (b : Bool)
  | num (n : Option JsonNumber)
  | str (s : Option String)
  | arr (items : List JsonTree)
  | obj (entries : List (Option String × JsonTree))
  deriving Inhabited

namespace JsonTree

def isBlank (c : Char) : Bool := c == ' ' || c == '\n' || c == '\t' || c == '\r'

def skipBlanks (cs : List Char) : List Char := cs.dropWhile isBlank

def hexValue (c : Char) : Option Nat :=
  if '0' ≤ c && c ≤ '9' then some (c.toNat - '0'.toNat)
  else if 'a' ≤ c && c ≤ 'f' then some (c.toNat - 'a'.toNat + 10)
  else if 'A' ≤ c && c ≤ 'F' then some (c.toNat - 'A'.toNat + 10)
  else none

def hex4 (a b c d : Char) : Option Nat := do
  return (← hexValue a) * 4096 + (← hexValue b) * 256 + (← hexValue c) * 16 + (← hexValue d)

inductive Piece where
  | char (c : Char)
  | unit (n : Nat)

def stringPieces : List Char → List Piece → Option (List Piece × List Char)
  | [], _ => none
  | '"' :: rest, acc => some (acc, rest)
  | '\\' :: 'u' :: a :: b :: c :: d :: rest, acc =>
    match hex4 a b c d with
    | some n => stringPieces rest (.unit n :: acc)
    | none => none
  | '\\' :: e :: rest, acc =>
    let c? : Option Char := match e with
      | '"' => some '"' | '\\' => some '\\' | '/' => some '/' | 'b' => some '\x08'
      | 'f' => some '\x0c' | 'n' => some '\n' | 'r' => some '\r' | 't' => some '\t'
      | _ => none
    match c? with
    | some c => stringPieces rest (.char c :: acc)
    | none => none
  | c :: rest, acc => if c.toNat < 0x20 then none else stringPieces rest (.char c :: acc)

def joinPieces : List Piece → Option (List Char)
  | [] => some []
  | .char c :: rest => (joinPieces rest).map (c :: ·)
  | .unit hi :: .unit lo :: rest =>
    if 0xD800 ≤ hi && hi ≤ 0xDBFF && 0xDC00 ≤ lo && lo ≤ 0xDFFF then
      (joinPieces rest).map (Char.ofNat (0x10000 + (hi - 0xD800) * 0x400 + (lo - 0xDC00)) :: ·)
    else if 0xD800 ≤ hi && hi ≤ 0xDFFF then none
    else (joinPieces (.unit lo :: rest)).map (Char.ofNat hi :: ·)
  | .unit n :: rest =>
    if 0xD800 ≤ n && n ≤ 0xDFFF then none else (joinPieces rest).map (Char.ofNat n :: ·)

def readString (cs : List Char) : Option (Option String × List Char) := do
  let (pieces, rest) ← stringPieces cs []
  return ((joinPieces pieces.reverse).map String.ofList, rest)

def digitValue (c : Char) : Nat := c.toNat - '0'.toNat

def readInteger : List Char → Option (List Char × List Char)
  | '0' :: rest => if (rest.head?.map Char.isDigit).getD false then none else some (['0'], rest)
  | cs@(c :: _) => if c.isDigit then some (cs.takeWhile Char.isDigit, cs.dropWhile Char.isDigit)
    else none
  | [] => none

def readDigits (cs : List Char) : Option (List Char × List Char) :=
  let ds := cs.takeWhile Char.isDigit
  if ds.isEmpty then none else some (ds, cs.dropWhile Char.isDigit)

def readFraction : List Char → Option (Option (List Char) × List Char)
  | '.' :: rest => (readDigits rest).map fun (ds, rest) => (some ds, rest)
  | cs => some (none, cs)

def readExponent : List Char → Option (Option (Bool × List Char) × List Char)
  | e :: rest =>
    if e == 'e' || e == 'E' then
      let (up, rest) := match rest with
        | '+' :: r => (true, r)
        | '-' :: r => (false, r)
        | _ => (true, rest)
      (readDigits rest).map fun (ds, rest) => (some (up, ds), rest)
    else some (none, e :: rest)
  | [] => some (none, [])

def readNumber (cs : List Char) : Option (JsonNumber.Written × List Char) := do
  let (negative, cs) := match cs with
    | '-' :: rest => (true, rest)
    | _ => (false, cs)
  let (integer, cs) ← readInteger cs
  let (fraction, cs) ← readFraction cs
  let (exponent, cs) ← readExponent cs
  return (⟨negative, integer.map digitValue, fraction.map (·.map digitValue),
    exponent.map fun (up, ds) => (up, ds.map digitValue)⟩, cs)

def readWord (w : List Char) (cs : List Char) : Option (List Char) :=
  if w.isPrefixOf cs then some (cs.drop w.length) else none

mutual

def readValue : Nat → List Char → Option (JsonTree × List Char)
  | 0, _ => none
  | fuel + 1, cs =>
    match skipBlanks cs with
    | 'n' :: rest => (readWord ['u', 'l', 'l'] rest).map (null, ·)
    | 't' :: rest => (readWord ['r', 'u', 'e'] rest).map (bool true, ·)
    | 'f' :: rest => (readWord ['a', 'l', 's', 'e'] rest).map (bool false, ·)
    | '"' :: rest => (readString rest).map fun (s, rest) => (str s, rest)
    | '[' :: rest =>
      match skipBlanks rest with
      | ']' :: rest => some (arr [], rest)
      | _ => (readItems fuel rest []).map fun (items, rest) => (arr items, rest)
    | '{' :: rest =>
      match skipBlanks rest with
      | '}' :: rest => some (obj [], rest)
      | _ => (readEntries fuel rest []).map fun (entries, rest) => (obj entries, rest)
    | cs => (readNumber cs).map fun (w, rest) => (num (JsonNumber.ofWritten? w), rest)

def readItems : Nat → List Char → List JsonTree → Option (List JsonTree × List Char)
  | 0, _, _ => none
  | fuel + 1, cs, acc => do
    let (v, rest) ← readValue fuel cs
    match skipBlanks rest with
    | ',' :: rest => readItems fuel rest (v :: acc)
    | ']' :: rest => some ((v :: acc).reverse, rest)
    | _ => none

def readEntries : Nat → List Char → List (Option String × JsonTree) →
    Option (List (Option String × JsonTree) × List Char)
  | 0, _, _ => none
  | fuel + 1, cs, acc => do
    let (key, rest) ← match skipBlanks cs with
      | '"' :: rest => readString rest
      | _ => none
    let rest ← match skipBlanks rest with
      | ':' :: rest => some rest
      | _ => none
    let (v, rest) ← readValue fuel rest
    match skipBlanks rest with
    | ',' :: rest => readEntries fuel rest ((key, v) :: acc)
    | '}' :: rest => some (((key, v) :: acc).reverse, rest)
    | _ => none

end

/-- Reads a whole text: one value, with only blanks around it. -/
def read? (s : String) : Option JsonTree := do
  let cs := s.toList
  let (v, rest) ← readValue (2 * cs.length + 2) cs
  if (skipBlanks rest).isEmpty then some v else none

def depthBudget : Nat := 128

mutual

/-- The value of a tree, with `budget` levels of nesting left. -/
def toJson? : Nat → JsonTree → Option Json
  | _, null => some .null
  | _, bool b => some (.bool b)
  | _, num n => n.map .num
  | _, str s => s.map .str
  | budget, arr items => if budget ≤ 1 then none else (itemsToJson? (budget - 1) items).map .arr
  | budget, obj entries =>
    if budget ≤ 1 then none
    else (entriesToJson? (budget - 1) entries).map fun fs => .obj (Table.ofList fs).entries

def itemsToJson? : Nat → List JsonTree → Option (List Json)
  | _, [] => some []
  | budget, t :: ts => do return (← toJson? budget t) :: (← itemsToJson? budget ts)

def entriesToJson? : Nat → List (Option String × JsonTree) → Option (List (String × Json))
  | _, [] => some []
  | budget, (k, t) :: es => do return (← k, ← toJson? budget t) :: (← entriesToJson? budget es)

end

end JsonTree

def Json.parse? (s : String) : Option Json := (JsonTree.read? s).bind (JsonTree.toJson? JsonTree.depthBudget)

end ContractDeploy
