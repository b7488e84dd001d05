import ContractDeploy.Source.Token
import ContractDeploy.Source.Fault
import ContractDeploy.Text.Blank
import ContractDeploy.Text.Letter
import ContractDeploy.Text.Numeric
import ContractDeploy.Text.Quoted

/-!
# Reading a source text into tokens

`Lexer.tokenize` reads a source text into its tokens, the last one the end of the text, or
gives the first fault. A leading byte order mark U+FEFF is passed over; anywhere else it is an
invalid character. Before each token, blanks (Unicode White_Space), line comments `// …` up
to the line feed, and block comments `/* … */`, which nest, are skipped. Then:

* `"` starts a string literal, which ends at the next unescaped `"` on the same line. Its
  escapes are `\0 \\ \t \n \r \" \'` and `\u{h…}` with one to eight hexadecimal digits naming a
  Unicode scalar value; a bad escape is reported just after its backslash;
* an ASCII digit starts a number: `0x`, `0X`, `0b` or `0o` and then ASCII letters, digits and
  `_`, or else digits and `_` with an optional fraction of a point, a digit and more of them;
* `_` or a letter starts a word, continued by `_`, letters and numeric characters; a word
  that is a keyword is that keyword;
* any other ASCII punctuation character is a symbol by itself;
* any other character is an invalid character, named by its ASCII escape.
-/

namespace ContractDeploy

structure Cursor where
  pos : Position
  rest : List Char
  deriving Inhabited

namespace Cursor

def byteOrderMark : Char := '\uFEFF'

def ofSource (s : String) : Cursor :=
  match s.toList with
  | c :: rest => if c = byteOrderMark then ⟨Position.start.advance c, rest⟩ else ⟨.start, c :: rest⟩
  | [] => ⟨.start, []⟩

def skip (c : Cursor) (n : Nat) : Cursor := ⟨c.pos.advanceAll (c.rest.take n), c.rest.drop n⟩

def peekText (c : Cursor) (n : Nat) : String := String.ofList (c.rest.take n)

theorem length_rest_skip (c : Cursor) (n : Nat) : (c.skip n).rest.length = c.rest.length - n := by
  simp [skip]

end Cursor

namespace Lexer

def isWordStart (c : Char) : Bool := c == '_' || Text.isLetter c

def isWordChar (c : Char) : Bool := c == '_' || Text.isLetter c || Text.isNumeric c

def isPunctuation (c : Char) : Bool :=
  let n := c.toNat
  (0x21 ≤ n && n ≤ 0x2F) || (0x3A ≤ n && n ≤ 0x40) || (0x5B ≤ n && n ≤ 0x60)
    || (0x7B ≤ n && n ≤ 0x7E)

def isHexDigit (c : Char) : Bool := c.isDigit || ('a' ≤ c && c ≤ 'f') || ('A' ≤ c && c ≤ 'F')

def hexValue (ds : List Char) : Nat :=
  ds.foldl (fun acc d =>
    acc * 16 + if d.isDigit then d.toNat - '0'.toNat
      else if 'a' ≤ d && d ≤ 'f' then d.toNat - 'a'.toNat + 10 else d.toNat - 'A'.toNat + 10) 0

def commentLength : Nat → Nat → List Char → Option Nat
  | _, _, [] => none
  | opened, n, '/' :: '*' :: cs => commentLength (opened + 1) (n + 2) cs
  | opened, n, '*' :: '/' :: cs =>
    if opened = 0 then some (n + 2) else commentLength (opened - 1) (n + 2) cs
  | opened, n, _ :: cs => commentLength opened (n + 1) cs

/-- Skips blanks and comments. -/
def skipTrivia (c : Cursor) : Except ParseFault Cursor :=
  match h : c.rest with
  | [] => .ok c
  | '/' :: '/' :: line => skipTrivia (c.skip (2 + (line.takeWhile (· != '\n')).length))
  | '/' :: '*' :: body =>
    match commentLength 0 0 body with
    | some n => skipTrivia (c.skip (n + 2))
    | none => .error ⟨.unterminatedComment, c.pos, "Unterminated block comment", none⟩
  -- a slash is no blank: testing for comments before blanks changes nothing
  | ch :: _ => if Text.isBlank ch then skipTrivia (c.skip 1) else .ok c
termination_by c.rest.length
decreasing_by all_goals (rw [Cursor.length_rest_skip, h]; simp only [List.length_cons]; omega)

def simpleEscape : Char → Option Char
  | '0' => some '\x00'
  | '\\' => some '\\'
  | 't' => some '\t'
  | 'n' => some '\n'
  | 'r' => some '\r'
  | '"' => some '"'
  | '\'' => some '\''
  | _ => none

def unicodeFormDetail : String := "Unicode escape must be of the form \\u\x7bXXXX\x7d"

def unicodeEscape (cs : List Char) : Except String (Char × Nat) :=
  match cs with
  | '\x7b' :: rest =>
    let ds := rest.takeWhile isHexDigit
    match rest.drop ds.length with
    | '\x7d' :: _ =>
      if ds.isEmpty || ds.length > 8 then .error unicodeFormDetail
      else
        let v := hexValue ds
        if v.isValidChar then .ok (Char.ofNat v, ds.length + 2)
        else .error "Unicode escape is not a valid scalar value"
    | _ => .error unicodeFormDetail
  | _ => .error unicodeFormDetail

def stringBody (start : Position) (c : Cursor) (acc : List Char) :
    Except ParseFault (String × Cursor) :=
  let unterminated : ParseFault := ⟨.unterminatedString, start, "Unterminated string literal", none⟩
  match _hrest : c.rest with
  | [] => .error unterminated
  | '"' :: _ => .ok (String.ofList acc.reverse, c.skip 1)
  | '\n' :: _ => .error unterminated
  | '\\' :: rest =>
    let escapeAt := c.pos.advance '\\'
    match rest with
    | [] => .error unterminated
    | e :: more =>
      match simpleEscape e with
      | some ch => stringBody start (c.skip 2) (ch :: acc)
      | none =>
        if e = 'u' then
          match unicodeEscape more with
          | .ok (ch, n) => stringBody start (c.skip (2 + n)) (ch :: acc)
          | .error detail => .error ⟨.invalidEscapeSequence, escapeAt, detail, none⟩
        else .error ⟨.invalidEscapeSequence, escapeAt, "Invalid escape sequence: \\" ++ e.toString, none⟩
  | ch :: _ => stringBody start (c.skip 1) (ch :: acc)
termination_by c.rest.length
decreasing_by all_goals (rw [Cursor.length_rest_skip, _hrest]; simp only [List.length_cons]; omega)

def numberLength (cs : List Char) : Nat :=
  let plain :=
    let isPart := fun (c : Char) => c.isDigit || c == '_'
    let whole := (cs.takeWhile isPart).length
    match cs.drop whole with
    | '.' :: d :: more => if d.isDigit then whole + 1 + ((d :: more).takeWhile isPart).length else whole
    | _ => whole
  match cs with
  | '0' :: p :: rest =>
    if p == 'x' || p == 'X' || p == 'b' || p == 'o' then
      2 + (rest.takeWhile fun c => c.isAlphanum || c == '_').length
    else plain
  | _ => plain

def take (c : Cursor) (k : TokenKind) (n : Nat) : Token × Cursor :=
  let c' := c.skip n
  (⟨k, c.peekText n, ⟨c.pos, c'.pos⟩⟩, c')

/-- Reads the next token after blanks and comments. -/
def nextToken (c : Cursor) : Except ParseFault (Token × Cursor) := do
  let c ← skipTrivia c
  match c.rest with
  | [] => return (⟨.eof, "", ⟨c.pos, c.pos⟩⟩, c)
  | ch :: rest =>
    if ch = '"' then
      let (value, c') ← stringBody c.pos (c.skip 1) []
      return (⟨.string value, c.peekText (c.rest.length - c'.rest.length), ⟨c.pos, c'.pos⟩⟩, c')
    else if ch.isDigit then
      let n := numberLength (ch :: rest)
      return take c (.number (c.peekText n)) n
    else if isWordStart ch then
      let n := ((ch :: rest).takeWhile isWordChar).length
      let word := c.peekText n
      return take c ((Keyword.ofWord? word).elim (.identifier word) .keyword) n
    else if isPunctuation ch then
      return take c (.symbol ch) 1
    else
      throw ⟨.invalidCharacter, c.pos,
        "Unexpected character '" ++ String.ofList (Text.asciiEscape ch) ++ "'", none⟩

def tokensFrom (c : Cursor) (acc : List Token) : Except ParseFault (List Token) := do
  let (t, c') ← nextToken c
  if t.isEof then return (t :: acc).reverse
  -- every token but the end takes at least one character
  if _h : c'.rest.length < c.rest.length then tokensFrom c' (t :: acc)
  else return (t :: acc).reverse
termination_by c.rest.length

/-- The tokens of a source text, the last one its end, or the first fault. -/
def tokenize (s : String) : Except ParseFault (List Token) := tokensFrom (Cursor.ofSource s) []

def states (s : String) : Except ParseFault (List (Position × Bool)) := do
  let ts ← tokenize s
  return ((Cursor.ofSource s).pos, true) :: ts.map fun t => (t.span.stop, !t.isEof)

end Lexer

end ContractDeploy
