import ContractDeploy.Source.Token

namespace ContractDeploy

inductive CompositeKind where
  | contract | resource | struct | event | enum | attachment
  deriving DecidableEq, Repr, Inhabited

namespace CompositeKind

def text : CompositeKind → String
  | contract => "contract"
  | resource => "resource"
  | struct => "struct"
  | event => "event"
  | enum => "enum"
  | attachment => "attachment"

def ofKeyword? : Keyword → Option CompositeKind
  | .contract => some contract
  | .resource => some resource
  | .struct => some struct
  | .event => some event
  | .enum => some enum
  | .attachment => some attachment
  | _ => none

end CompositeKind

structure Declaration where
  kind : CompositeKind
  isInterface : Bool
  name : String
  span : Span
  deriving DecidableEq, Repr, Inhabited

inductive ImportLocation where
  | string (path : String)
  | address (text : String)
  | identifier (name : String)
  deriving DecidableEq, Repr, Inhabited

namespace ImportLocation

def display : ImportLocation → String
  | string p => "\"" ++ p ++ "\""
  | address t => t
  | identifier n => n

def path? : ImportLocation → Option String
  | string p => some p
  | _ => none

end ImportLocation

structure Import where
  names : List String
  location : ImportLocation
  span : Span
  deriving DecidableEq, Repr, Inhabited

structure Program where
  declarations : List Declaration
  imports : List Import
  deriving DecidableEq, Repr, Inhabited

namespace Program

def composites (p : Program) : List Declaration := p.declarations.filter (!·.isInterface)

def interfaces (p : Program) : List Declaration := p.declarations.filter (·.isInterface)

end Program

end ContractDeploy
