import ContractDeploy.Source.Fault
import ContractDeploy.Address

namespace ContractDeploy

structure CycleMember where
  id : Nat
  name : String
  location : String
  deriving DecidableEq, Repr, Inhabited

inductive DeployError where
  | parse (location : String) (fault : ParseFault)
  | multipleDeclarations (location : String) (count : Nat)
  | load (location : String)
  | invalidEncoding (location : String) (fault : Utf8.DecodeError)
  | duplicateLocation (location : String)
  | unresolvedImport (contract location : String)
  | cyclicImport (cycles : List (List CycleMember))
  | invalidAddress (value : String) (fault : AddressFault)
  deriving Inhabited

namespace DeployError

def name : DeployError → String
  | parse .. => "Parse"
  | multipleDeclarations .. => "MultipleDeclarations"
  | load .. => "Load"
  | invalidEncoding .. => "InvalidEncoding"
  | duplicateLocation .. => "DuplicateLocation"
  | unresolvedImport .. => "UnresolvedImport"
  | cyclicImport .. => "CyclicImport"
  | invalidAddress .. => "InvalidAddress"

def notFound (location : String) : String := s!"no source registered for {location}"

def cycleNames (cycles : List (List CycleMember)) : List (List String) :=
  cycles.map (·.map (·.name))

def message : DeployError → String
  | parse loc f => s!"failed to parse contract {loc}: {f.message}"
  | multipleDeclarations loc n =>
    s!"the code must declare exactly one contract or contract interface, {loc} declares {n}"
  | load loc => s!"failed to load contract {loc}: {notFound loc}"
  | invalidEncoding loc e => s!"contract {loc} is not valid UTF-8: {e.message}"
  | duplicateLocation loc => s!"contract location {loc} is already registered"
  | unresolvedImport c loc =>
    s!"import from {c} could not be found: {loc}, make sure import path is correct"
  | cyclicImport cycles =>
    let each := (cycleNames cycles).map fun names => "[" ++ " ".intercalate names ++ "]"
    "contracts: import cycle(s) detected: [" ++ " ".intercalate each ++ "]"
  | invalidAddress v f => s!"invalid address {Text.quoteString v}: {f.reason}"

def location? : DeployError → Option String
  | parse loc _ | multipleDeclarations loc _ | load loc | invalidEncoding loc _
  | duplicateLocation loc => some loc
  | _ => none

end DeployError

def Address.read (s : String) : Except DeployError Address :=
  (Address.ofHex? s).mapError (.invalidAddress s)

end ContractDeploy
