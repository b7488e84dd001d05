import ContractDeploy.Error
import ContractDeploy.Substitution
import ContractDeploy.Source.Scan
import ContractDeploy.Json.Value

/-!
# Contracts

A contract is the code registered at a location, with the account it is deployed to, its
arguments and what its imports resolved to. Building one (`Contract.make`) parses the code,
which must declare exactly one contract or contract interface; its name and its path imports
come from the source unit.

An import location resolves to a registered contract (a dependency) or to an address given by
an alias; a location holds at most one of the two, and a dependency is looked at first. The
code is deployed with addresses in place of its resolved imports, put there by a strategy; for
the first-occurrence strategy the dependencies come first, then the aliases, each in location
order.
-/

namespace ContractDeploy

structure Dependency where
  id : Nat
  name : String
  target : Address
  deriving DecidableEq, Repr, Inhabited

structure Contract where
  id : Nat
  name : String
  location : String
  code : String
  args : List Json
  target : Address
  accountName : String
  imports : List SourceImport
  dependencies : Table Dependency
  aliases : Table Address
  deriving Inhabited

namespace Contract

/-- Builds a contract from its code, which must declare exactly one contract or interface. -/
def make (id : Nat) (location code : String) (target : Address) (accountName : String)
    (args : List Json) : Except DeployError Contract := do
  let program ← (Program.parse code).mapError fun f => .parse location (f.withContext location)
  let count := program.declarationCount
  if count ≠ 1 then throw (.multipleDeclarations location count)
  let u := SourceUnit.ofProgram program
  return ⟨id, u.name, location, code, args, target, accountName, u.imports, {}, {}⟩

def idDisplay (c : Contract) : String := s!"#{c.id}"

def hasImports (c : Contract) : Bool := !c.imports.isEmpty

def addDependency (c : Contract) (location : String) (d : Dependency) : Contract :=
  { c with aliases := c.aliases.erase location, dependencies := c.dependencies.insert location d }

def addAlias (c : Contract) (location : String) (a : Address) : Contract :=
  { c with dependencies := c.dependencies.erase location, aliases := c.aliases.insert location a }

def resolvedAddress (c : Contract) (location : String) : Option Address :=
  match c.dependencies.find? location with
  | some d => some d.target
  | none => c.aliases.find? location

/-- The code with addresses in place of its resolved imports, as `strategy` puts them. -/
def deployedCode (c : Contract) (strategy : Substitution) : String :=
  match strategy with
  | .importSpans => substituteSpans c.code c.imports c.resolvedAddress
  | .firstOccurrence =>
    substituteFirst c.code (c.dependencies.toList.map (fun (l, d) => (l, d.target)) ++ c.aliases.toList)

end Contract

end ContractDeploy
