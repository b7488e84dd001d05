import ContractDeploy.Source.Position

namespace ContractDeploy

inductive FaultKind where
  | syntaxError
  | unexpectedToken
  | unexpectedEof
  | invalidCharacter
  | invalidEscapeSequence
  | unterminatedString
  | unterminatedComment
  deriving DecidableEq, Repr, Inhabited

namespace FaultKind

def name : FaultKind → String
  | syntaxError => "SyntaxError"
  | unexpectedToken => "UnexpectedToken"
  | unexpectedEof => "UnexpectedEof"
  | invalidCharacter => "InvalidCharacter"
  | invalidEscapeSequence => "InvalidEscapeSequence"
  | unterminatedString => "UnterminatedString"
  | unterminatedComment => "UnterminatedComment"

def code : FaultKind → String
  | syntaxError => "E002"
  | unexpectedToken => "E004"
  | unexpectedEof => "E006"
  | invalidCharacter => "E007"
  | invalidEscapeSequence => "E010"
  | unterminatedString => "E011"
  | unterminatedComment => "E012"

def description : FaultKind → String
  | syntaxError => "Syntax error"
  | unexpectedToken => "Unexpected token"
  | unexpectedEof => "Unexpected end of file"
  | invalidCharacter => "Invalid character"
  | invalidEscapeSequence => "Invalid escape sequence"
  | unterminatedString => "Unterminated string literal"
  | unterminatedComment => "Unterminated comment"

def display : FaultKind → String
  | unterminatedString => "Unterminated string"
  | k => k.description

end FaultKind

structure ParseFault where
  kind : FaultKind
  position : Position
  detail : String
  context : Option String := none
  deriving DecidableEq, Repr, Inhabited

namespace ParseFault

def message (e : ParseFault) : String :=
  s!"{e.kind.description} at line {e.position.line}, column {e.position.column}: {e.detail}"

def debugMessage (e : ParseFault) : String :=
  let base := s!"[{e.kind.code}] {e.message}"
  match e.context with
  | some c => base ++ s!"\nContext: {c}"
  | none => base

def withContext (e : ParseFault) (c : String) : ParseFault := { e with context := some c }

def unexpectedToken (p : Position) (found expected : String) : ParseFault :=
  ⟨.unexpectedToken, p, s!"Found '{found}', expected {expected}", none⟩

def unexpectedEof (p : Position) (expected : String) : ParseFault :=
  ⟨.unexpectedEof, p, s!"Unexpected end of file, expected {expected}", none⟩

end ParseFault

end ContractDeploy
