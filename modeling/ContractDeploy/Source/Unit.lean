import ContractDeploy.Source.Program

namespace ContractDeploy

structure SourceImport where
  location : String
  span : Span
  deriving DecidableEq, Repr, Inhabited

structure SourceUnit where
  name : String
  imports : List SourceImport
  deriving DecidableEq, Repr, Inhabited

namespace Program

def declarationCount (p : Program) : Nat := p.composites.length + p.interfaces.length

def contractName (p : Program) : String :=
  let isContract := fun (d : Declaration) => d.kind == .contract
  match p.composites.find? isContract with
  | some d => d.name
  | none => ((p.interfaces.find? isContract).map (·.name)).getD ""

def pathImports (p : Program) : List SourceImport :=
  p.imports.filterMap fun i => i.location.path?.map fun loc => ⟨loc, i.span⟩

end Program

def SourceUnit.ofProgram (p : Program) : SourceUnit := ⟨p.contractName, p.pathImports⟩

end ContractDeploy
