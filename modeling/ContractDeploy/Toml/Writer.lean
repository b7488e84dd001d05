import ContractDeploy.Text.Quoted

namespace ContractDeploy

namespace Toml

def isControl (c : Char) : Bool := (c.toNat ≤ 0x1F && c != '\t' && c != '\n') || c.toNat == 0x7F

def longestRun (q : Char) (cs : List Char) : Nat :=
  (cs.foldl (fun (best, run) c => if c = q then (max best (run + 1), run + 1) else (best, 0))
    (0, 0)).1

def upperHex (n : Nat) : Char := if n < 10 then Char.ofNat ('0'.toNat + n) else Char.ofNat ('A'.toNat + n - 10)

def escapeIn (multiLine : Bool) : Nat → List Char → List Char
  | _, [] => []
  | run, c :: rest =>
    if c = '"' then
      if multiLine && run < 2 then '"' :: escapeIn multiLine (run + 1) rest
      else '\\' :: '"' :: escapeIn multiLine 0 rest
    else
      let here : List Char := match c with
        | '\\' => ['\\', '\\']
        | '\x08' => ['\\', 'b']
        | '\t' => ['\\', 't']
        | '\n' => if multiLine then ['\n'] else ['\\', 'n']
        | '\x0c' => ['\\', 'f']
        | '\r' => ['\\', 'r']
        | c =>
          if isControl c then
            ['\\', 'u', '0', '0', upperHex (c.toNat / 16), upperHex (c.toNat % 16)]
          else [c]
      here ++ escapeIn multiLine 0 rest

def basic (cs : List Char) : List Char := '"' :: escapeIn false 0 cs ++ ['"']

def isBareKey (cs : List Char) : Bool :=
  !cs.isEmpty && cs.all fun c => c.isAlphanum || c == '-' || c == '_'

def writeKey (k : String) : String :=
  let cs := k.toList
  let controls := cs.any fun c => isControl c || c == '\n'
  String.ofList <|
    if isBareKey cs then cs
    else if !controls && !cs.contains '\\' && !cs.contains '"' then basic cs
    else if !controls && !cs.contains '\'' then '\'' :: cs ++ ['\'']
    else basic cs

def writeString (s : String) : String :=
  let cs := s.toList
  let controls := cs.any isControl
  let breaks := cs.contains '\n'
  let opening := if breaks then ['\n'] else []
  String.ofList <|
    if !controls && !breaks && !cs.contains '\\' && !cs.contains '"' then basic cs
    else if !controls && !breaks && !cs.contains '\'' then '\'' :: cs ++ ['\'']
    else if !controls && !cs.contains '\\' && longestRun '"' cs < 3 then
      ['"', '"', '"'] ++ opening ++ escapeIn true 0 cs ++ ['"', '"', '"']
    else if !controls && longestRun '\'' cs < 3 then
      ['\'', '\'', '\''] ++ opening ++ cs ++ ['\'', '\'', '\'']
    else if breaks then ['"', '"', '"'] ++ opening ++ escapeIn true 0 cs ++ ['"', '"', '"']
    else basic cs

example : writeKey "./A.cdc" = "\"./A.cdc\"" := by decide +kernel
example : writeKey "a\"b" = "'a\"b'" := by decide +kernel
example : writeKey "tab\tkey" = "\"tab\\tkey\"" := by decide +kernel

end Toml

end ContractDeploy
