import ContractDeploy.Table
import ContractDeploy.Json.Value
import ContractDeploy.Binary64
import ContractDeploy.Decimal.Shortest
import ContractDeploy.Json.Number
import ContractDeploy.Json.Reader
import ContractDeploy.Json.Writer
import ContractDeploy.Text.Ranges
import ContractDeploy.Text.Blank
import ContractDeploy.Text.Letter
import ContractDeploy.Text.Numeric
import ContractDeploy.Text.Extending
import ContractDeploy.Text.Unprintable
import ContractDeploy.Text.Quoted
import ContractDeploy.Text.Utf8
import ContractDeploy.Address
import ContractDeploy.Source.Position
import ContractDeploy.Source.Token
import ContractDeploy.Source.Fault
import ContractDeploy.Source.Lexer
import ContractDeploy.Source.Program
import ContractDeploy.Source.Scan
import ContractDeploy.Source.Unit
import ContractDeploy.Error
import ContractDeploy.Substitution
import ContractDeploy.Contract
import ContractDeploy.Graph
import ContractDeploy.Toml.Value
import ContractDeploy.Toml.Reader
import ContractDeploy.Toml.Writer
import ContractDeploy.Config
import ContractDeploy.Plan
import ContractDeploy.Registry
import ContractDeploy.Proofs.Graph.Basic
import ContractDeploy.Proofs.Graph.Order
import ContractDeploy.Proofs.Table
import ContractDeploy.Proofs.Registry.Steps
import ContractDeploy.Proofs.Registry.Invariant
import ContractDeploy.Proofs.Registry.Graph
import ContractDeploy.Proofs.Registry.Sort
import ContractDeploy.Proofs.Registry.Reachable
import ContractDeploy.Proofs.Source.Layout
import ContractDeploy.Proofs.Source.Lexer
import ContractDeploy.Proofs.Source.Scan
import ContractDeploy.Proofs.Substitution
import ContractDeploy.Proofs.Registry.Plan
import ContractDeploy.Proofs.Graph.Components
import ContractDeploy.Proofs.Graph.Cycles
import ContractDeploy.Proofs.Graph.Search
import ContractDeploy.Proofs.StableSort
import ContractDeploy.Proofs.Registry.Cycles
import ContractDeploy.Proofs.Registry.Resolve
import ContractDeploy.Proofs.Registry.Add
import ContractDeploy.Proofs.DeployedCode
import ContractDeploy.Proofs.Graph.Built
import ContractDeploy.Proofs.Source.TopLevel
import ContractDeploy.Proofs.FirstOccurrence
import ContractDeploy.Proofs.Source.Relabel
import ContractDeploy.Proofs.Source.Rescan
import ContractDeploy.Proofs.Reparse
import ContractDeploy.Proofs.Source.Literal
import ContractDeploy.Proofs.Source.Coverage
import ContractDeploy.Proofs.Source.Positions
import ContractDeploy.Proofs.Source.Brackets
import ContractDeploy.Proofs.AddressText
import ContractDeploy.Proofs.Graph.Placing
import ContractDeploy.Proofs.Splicing
