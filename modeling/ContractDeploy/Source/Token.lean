import ContractDeploy.Source.Position

namespace ContractDeploy

inductive Keyword where
  | import | «from» | contract | resource | struct | event | enum | attachment | interface
  | pub | priv | access
  deriving DecidableEq, Repr, Inhabited

namespace Keyword

def all : List Keyword :=
  [.import, .from, .contract, .resource, .struct, .event, .enum, .attachment, .interface,
    .pub, .priv, .access]

def text : Keyword → String
  | .import => "import"
  | .from => "from"
  | .contract => "contract"
  | .resource => "resource"
  | .struct => "struct"
  | .event => "event"
  | .enum => "enum"
  | .attachment => "attachment"
  | .interface => "interface"
  | .pub => "pub"
  | .priv => "priv"
  | .access => "access"

def ofWord? (w : String) : Option Keyword := all.find? (·.text == w)

def isContextual : Keyword → Bool
  | .from | .attachment => true
  | _ => false

theorem ofWord?_text (k : Keyword) : ofWord? k.text = some k := by
  cases k <;> decide

end Keyword

inductive TokenKind where
  | string (value : String)
  | number (text : String)
  | identifier (name : String)
  | keyword (k : Keyword)
  | symbol (c : Char)
  | eof
  deriving DecidableEq, Repr, Inhabited

namespace TokenKind

def describe : TokenKind → String
  | string _ => "string literal"
  | number _ => "number literal"
  | identifier _ => "identifier"
  | keyword k => s!"keyword {k.text}"
  | symbol _ => "symbol"
  | eof => "end of file"

def isAddressLiteral : TokenKind → Bool
  | number t => t.startsWith "0x" || t.startsWith "0X"
  | _ => false

end TokenKind

structure Token where
  kind : TokenKind
  lexeme : String
  span : Span
  deriving DecidableEq, Repr, Inhabited

namespace Token

def display (t : Token) : String := s!"{t.kind.describe} '{t.lexeme}'"

def isEof (t : Token) : Bool := t.kind == .eof

def isKeyword (t : Token) (k : Keyword) : Bool := t.kind == .keyword k

def isSymbol (t : Token) (c : Char) : Bool := t.kind == .symbol c

end Token

end ContractDeploy
