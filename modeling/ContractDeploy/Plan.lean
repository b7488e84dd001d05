import ContractDeploy.Contract
import ContractDeploy.Json.Reader
import ContractDeploy.Json.Writer

namespace ContractDeploy

structure PlannedContract where
  name : String
  location : String
  accountAddress : Address
  accountName : String
  args : List Json
  code : String

structure Plan where
  contracts : List PlannedContract

namespace PlannedContract

def ofContract (strategy : Substitution) (c : Contract) : PlannedContract :=
  ⟨c.name, c.location, c.target, c.accountName, c.args, c.deployedCode strategy⟩

def beq (a b : PlannedContract) : Bool :=
  a.name == b.name && a.location == b.location && a.accountAddress == b.accountAddress &&
    a.accountName == b.accountName && Json.beqItems a.args b.args && a.code == b.code

def toJson (p : PlannedContract) : Json :=
  Json.mkObj [("name", .str p.name), ("location", .str p.location),
    ("account_address", .str p.accountAddress.literal), ("account_name", .str p.accountName),
    ("args", .arr p.args), ("code", .str p.code)]

def fieldNames : List String := ["name", "location", "account_address", "account_name", "args", "code"]

end PlannedContract

namespace Plan

def ofContracts (strategy : Substitution) (cs : List Contract) : Plan :=
  ⟨cs.map (PlannedContract.ofContract strategy)⟩

def names (p : Plan) : List String := p.contracts.map (·.name)

def size (p : Plan) : Nat := p.contracts.length

def isEmpty (p : Plan) : Bool := p.contracts.isEmpty

def beq (a b : Plan) : Bool :=
  a.contracts.length == b.contracts.length &&
    (a.contracts.zip b.contracts).all fun (x, y) => x.beq y

def toJson (p : Plan) : Json := Json.mkObj [("contracts", .arr (p.contracts.map (·.toJson)))]

def fieldsOf? (names : List String) (budget : Nat) : JsonTree → Option (List JsonTree)
  | .obj entries =>
    if budget ≤ 1 then none
    else if entries.any (·.1.isNone) then none
    else names.mapM fun n =>
      match entries.filter (·.1 == some n) with
      | [(_, v)] => some v
      | _ => none
  | .arr items => if budget ≤ 1 || items.length != names.length then none else some items
  | _ => none

def itemsOf? (budget : Nat) : JsonTree → Option (List JsonTree)
  | .arr items => if budget ≤ 1 then none else some items
  | _ => none

def textOf? : JsonTree → Option String
  | .str (some s) => some s
  | _ => none

def contractOf? (budget : Nat) (t : JsonTree) : Option PlannedContract := do
  let fs ← fieldsOf? PlannedContract.fieldNames budget t
  match fs with
  | [name, location, address, account, args, code] =>
    let a ← (Address.ofHex? (← textOf? address)).toOption
    let args ← (← itemsOf? (budget - 1) args).mapM (JsonTree.toJson? (budget - 2))
    return ⟨← textOf? name, ← textOf? location, a, ← textOf? account, args, ← textOf? code⟩
  | _ => none

def ofTree? (t : JsonTree) : Option Plan := do
  let budget := JsonTree.depthBudget
  match ← fieldsOf? ["contracts"] budget t with
  | [cs] => return ⟨← (← itemsOf? (budget - 1) cs).mapM (contractOf? (budget - 2))⟩
  | _ => none

def ofJson? (s : String) : Option Plan := (JsonTree.read? s).bind ofTree?

def roundTrips (p : Plan) : Bool := ((ofJson? p.toJson.render).map p.beq).getD false

end Plan

end ContractDeploy
