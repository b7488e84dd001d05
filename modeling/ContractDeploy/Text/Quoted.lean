import ContractDeploy.Text.Extending
import ContractDeploy.Text.Unprintable

namespace ContractDeploy

namespace Text

def hexDigit (n : Nat) : Char :=
  if n < 10 then Char.ofNat ('0'.toNat + n) else Char.ofNat ('a'.toNat + n - 10)

def unicodeEscape (c : Char) : List Char :=
  '\\' :: 'u' :: '\x7b' :: (Nat.toDigits 16 c.toNat ++ ['\x7d'])

def asciiEscape (c : Char) : List Char :=
  match c with
  | '\t' => ['\\', 't']
  | '\r' => ['\\', 'r']
  | '\n' => ['\\', 'n']
  | '\\' => ['\\', '\\']
  | '\'' => ['\\', '\'']
  | '"' => ['\\', '"']
  | c => if 0x20 ≤ c.toNat && c.toNat ≤ 0x7E then [c] else unicodeEscape c

def visibleEscape (q : Char) (c : Char) : List Char :=
  match c with
  | '\x00' => ['\\', '0']
  | '\t' => ['\\', 't']
  | '\r' => ['\\', 'r']
  | '\n' => ['\\', 'n']
  | '\\' => ['\\', '\\']
  | c =>
    if c = q then ['\\', c]
    else if isExtending c || isUnprintable c then unicodeEscape c
    else [c]

def quoteChar (c : Char) : String := String.ofList ('\'' :: (visibleEscape '\'' c ++ ['\'']))

def quoteString (s : String) : String :=
  String.ofList ('"' :: (s.toList.flatMap (visibleEscape '"') ++ ['"']))

example : quoteChar '\x1b' = "'\\u{1b}'" := by decide +kernel
example : quoteString "a\"b'\u0301" = "\"a\\\"b'\\u{301}\"" := by decide +kernel

end Text

end ContractDeploy
