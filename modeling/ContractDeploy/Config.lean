import ContractDeploy.Toml.Reader
import ContractDeploy.Toml.Writer
import ContractDeploy.Substitution
import ContractDeploy.Error
import ContractDeploy.Table

namespace ContractDeploy

structure Config where
  substitution : Substitution
  aliases : Table String

namespace Config

def default : Config := ⟨.importSpans, {}⟩

def beq (a b : Config) : Bool := a.substitution == b.substitution && a.aliases.entries == b.aliases.entries

def isDefault (c : Config) : Bool := c.beq default

def withAlias (c : Config) (location address : String) : Config :=
  { c with aliases := c.aliases.insert location address }

def withSubstitution (c : Config) (s : Substitution) : Config := { c with substitution := s }

def isEmptyValue : TomlValue → Bool
  | .table [] | .array [] => true
  | _ => false

def strategyOf? : TomlValue → Option Substitution
  | .str s => Substitution.ofName? s
  | .table [(k, v)] => if isEmptyValue v then Substitution.ofName? k else none
  | _ => none

def datetimeKey : String := "$__toml_private_datetime"

def aliasesOf? : TomlValue → Option (Table String)
  | .table es => es.foldlM (fun t (k, v) => match v with
    | .str s => some (t.insert k s)
    | _ => none) {}
  | .datetime d => some (Table.empty.insert datetimeKey d.text)
  | _ => none

/-- Reads a configuration from TOML. -/
def ofToml? (s : String) : Option Config := do
  let root ← Toml.read? s
  let substitution ← match root.lookup "rewrite" with
    | none => some .importSpans
    | some v => strategyOf? v
  let aliases ← match root.lookup "aliases" with
    | none => some {}
    | some v => aliasesOf? v
  return ⟨substitution, aliases⟩

def toToml (c : Config) : String :=
  "rewrite = " ++ Toml.writeString c.substitution.name ++ "\n\n[aliases]\n" ++
    String.join (c.aliases.toList.map fun (k, v) => Toml.writeKey k ++ " = " ++ Toml.writeString v ++ "\n")

def addresses (c : Config) : Except DeployError (Table Address) :=
  c.aliases.mapM? fun _ s => Address.read s

end Config

end ContractDeploy
