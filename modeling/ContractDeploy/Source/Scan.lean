import ContractDeploy.Source.Program
import ContractDeploy.Source.Lexer

/-!
# Scanning tokens for declarations

`Program.ofTokens` walks the tokens of a program with a stack of open brackets `{ ( [`. A
closing bracket must close the innermost open one; at the end none may be open. Only where no
bracket is open does it read declarations:

* `import` is followed by a quoted path or an address literal, or by names separated by
  commas; several names must be followed by `from` and a location (a quoted path, an address
  literal or a name that is no keyword), while one name alone is itself the location;
* `contract resource struct event enum attachment` are followed by an optional `interface`
  and the declared name.

Where a name is expected, a contextual keyword (`from`, `attachment`) stands as one. A token
found where something else is expected is a fault at the token; the end of the text is a fault
of its own kind.
-/

namespace ContractDeploy

namespace Scan

def nameOf? (t : Token) : Option String :=
  match t.kind with
  | .identifier n => some n
  | .keyword k => if k.isContextual then some t.lexeme else none
  | _ => none

def expected (t : Token) (what : String) : ParseFault :=
  if t.isEof then .unexpectedEof t.span.start what
  else .unexpectedToken t.span.start t.lexeme what

def tokenAt (eof : Token) (ts : List Token) (i : Nat) : Token := ts[i]?.getD eof

def moreNames (eof : Token) : List Token → Except ParseFault (List String × Nat)
  | t :: rest =>
    if t.isSymbol ',' then
      match rest with
      | n :: rest' =>
        match nameOf? n with
        | some name => (moreNames eof rest').map fun (ns, k) => (name :: ns, k + 2)
        | none => .error (expected n "imported identifier")
      | [] => .error (expected eof "imported identifier")
    else .ok ([], 0)
  | [] => .ok ([], 0)

def locationOf (t : Token) : Except ParseFault ImportLocation :=
  match t.kind with
  | .string p => .ok (.string p)
  | .identifier n => .ok (.identifier n)
  | .eof => .error (.unexpectedEof t.span.start "import location")
  | k =>
    if k.isAddressLiteral then .ok (.address t.lexeme)
    else .error (.unexpectedToken t.span.start t.lexeme "import location")

def readImport (eof : Token) (ts : List Token) : Except ParseFault (Import × Nat) := do
  let first := tokenAt eof ts 0
  match first.kind with
  | .string p => return (⟨[], .string p, first.span⟩, 1)
  | k =>
    if k.isAddressLiteral then return (⟨[], .address first.lexeme, first.span⟩, 1)
    let some name := nameOf? first | throw (expected first "imported identifier or location")
    let (more, k) ← moreNames eof ts.tail
    let names := name :: more
    let next := tokenAt eof ts (k + 1)
    if next.isKeyword .from then
      let place := tokenAt eof ts (k + 2)
      let loc ← locationOf place
      return (⟨names, loc, place.span⟩, k + 3)
    else if more.isEmpty then return (⟨names, .identifier name, first.span⟩, 1)
    else throw (expected next "'from'")

def readDeclaration (eof : Token) (kw : Token) (kind : CompositeKind) (ts : List Token) :
    Except ParseFault (Declaration × Nat) := do
  let isInterface := (tokenAt eof ts 0).isKeyword .interface
  let i := if isInterface then 1 else 0
  let t := tokenAt eof ts i
  let some name := nameOf? t | throw (expected t "declaration name")
  return (⟨kind, isInterface, name, ⟨kw.span.start, t.span.stop⟩⟩, i + 1)

def opener : Char → Option Char
  | '}' => some '\x7b'
  | ')' => some '('
  | ']' => some '['
  | _ => none

def isOpener (c : Char) : Bool := c == '\x7b' || c == '(' || c == '['

/-- Scans the tokens `ts` before the end `eof`, with the brackets `opened` still open
(innermost first) and the declarations and imports found so far (reversed). -/
def scanFrom (eof : Token) (ts : List Token) (opened : List (Char × Position))
    (decls : List Declaration) (imports : List Import) : Except ParseFault Program :=
  match ts with
  | [] =>
    match opened with
    | (o, p) :: _ => .error ⟨.syntaxError, p, s!"Unclosed '{o}'", none⟩
    | [] => .ok ⟨decls.reverse, imports.reverse⟩
  | t :: rest =>
    match t.kind with
    | .symbol c =>
      if isOpener c then scanFrom eof rest ((c, t.span.start) :: opened) decls imports
      else match opener c with
        | some o =>
          match opened with
          | [] => .error ⟨.syntaxError, t.span.start, s!"Unmatched '{c}'", none⟩
          | (top, p) :: more =>
            if top = o then scanFrom eof rest more decls imports
            else .error ⟨.syntaxError, t.span.start,
              s!"Mismatched '{c}', '{top}' opened at {p.display} is still open", none⟩
        | none => scanFrom eof rest opened decls imports
    | .keyword kw =>
      if opened.isEmpty then
        if kw = .import then
          match readImport eof rest with
          | .ok (imp, k) => scanFrom eof (rest.drop k) opened decls (imp :: imports)
          | .error e => .error e
        else match CompositeKind.ofKeyword? kw with
          | some kind =>
            match readDeclaration eof t kind rest with
            | .ok (d, k) => scanFrom eof (rest.drop k) opened (d :: decls) imports
            | .error e => .error e
          | none => scanFrom eof rest opened decls imports
      else scanFrom eof rest opened decls imports
    | _ => scanFrom eof rest opened decls imports
termination_by ts.length
decreasing_by all_goals (simp only [List.length_drop, List.length_cons]; omega)

end Scan

namespace Program

def ofTokens (ts : List Token) : Except ParseFault Program :=
  Scan.scanFrom (ts.getLast?.getD default) ts.dropLast [] [] []

/-- Reads a program from its source text. -/
def parse (s : String) : Except ParseFault Program := do
  Program.ofTokens (← Lexer.tokenize s)

end Program

end ContractDeploy
