import ContractDeploy.Plan
import ContractDeploy.Graph
import ContractDeploy.Config

/-!
# The registry of contracts

A registry holds the contracts added so far, numbered from zero in the order they were added,
their deployment order, the alias table and the substitution strategy. Sources are looked up by
location.

* `add` refuses a location already registered, then a location with no source, then a source
  that is no UTF-8, then code that does not build a contract; a contract added is appended to
  the order;
* `resolve` resolves every import of every contract, in number order and import order: to the
  registered contract at that location, else to the alias of it; the first import that neither
  resolves fails the whole step, and nothing is recorded;
* `sort` resolves, then orders the contracts by their dependencies (`Graph.order`); on a
  cycle of imports the order stays as it was but the resolutions are kept.
-/

namespace ContractDeploy

structure Sources where
  files : Table (List Nat)

structure Registry where
  aliases : Table Address
  substitution : Substitution
  contracts : List Contract
  order : List Nat

inductive Resolution where
  | dependency (d : Dependency)
  | alias (a : Address)

namespace Registry

def ofConfig (c : Config) : Except DeployError Registry := do
  return ⟨← c.addresses, c.substitution, [], []⟩

def get? (r : Registry) (id : Nat) : Option Contract := r.contracts[id]?

def contractAt? (r : Registry) (location : String) : Option Contract :=
  r.contracts.find? (·.location == location)

def size (r : Registry) : Nat := r.contracts.length

def ordered (r : Registry) : List Contract := r.order.filterMap r.get?

/-- Adds the contract at `location`. -/
def add (r : Registry) (sources : Sources) (location : String) (target : Address)
    (accountName : String) (args : List Json) : Except DeployError (Contract × Registry) := do
  if (r.contractAt? location).isSome then throw (.duplicateLocation location)
  let some bytes := sources.files.find? location | throw (.load location)
  let code ← (Utf8.decode bytes).mapError (.invalidEncoding location)
  let c ← Contract.make r.size location code target accountName args
  return (c, { r with contracts := r.contracts ++ [c], order := r.order ++ [c.id] })

def resolution? (r : Registry) (location : String) : Option Resolution :=
  match r.contractAt? location with
  | some c => some (.dependency ⟨c.id, c.name, c.target⟩)
  | none => (r.aliases.find? location).map .alias

def Resolution.record (c : Contract) (location : String) : Resolution → Contract
  | .dependency d => c.addDependency location d
  | .alias a => c.addAlias location a

def resolutionsOf (r : Registry) (c : Contract) : Except DeployError (List (String × Resolution)) :=
  c.imports.mapM fun i => match r.resolution? i.location with
    | some res => .ok (i.location, res)
    | none => .error (.unresolvedImport c.name i.location)

/-- Resolves every import, or names the first that does not resolve. -/
def resolve (r : Registry) : Except DeployError Registry := do
  let all ← r.contracts.mapM r.resolutionsOf
  let contracts := (r.contracts.zip all).map fun (c, res) =>
    res.foldl (fun c (loc, x) => Resolution.record c loc x) c
  return { r with contracts }

def graph (r : Registry) : Graph :=
  let g := r.contracts.foldl (fun g c => (g.addNode c.id).1) Graph.empty
  r.contracts.foldl (fun g c => c.dependencies.toList.foldl (fun g (_, d) => g.addEdge d.id c.id) g) g

def member (r : Registry) (id : Nat) : CycleMember :=
  match r.get? id with
  | some c => ⟨id, c.name, c.location⟩
  | none => ⟨id, "", ""⟩

/-- Resolves and orders the contracts. Gives the registry after the step, and the fault if
there is one. -/
def sort (r : Registry) : Registry × Option DeployError :=
  match r.resolve with
  | .error e => (r, some e)
  | .ok r =>
    match r.graph.order with
    | .ok order => ({ r with order }, none)
    | .error cycles => (r, some (.cyclicImport (cycles.map (·.map r.member))))

def plan (r : Registry) : Plan := Plan.ofContracts r.substitution r.ordered

end Registry

end ContractDeploy
