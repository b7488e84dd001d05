import ContractDeploy.Json.Number
import ContractDeploy.Text.Quoted

namespace ContractDeploy

namespace Json

def escapeChar (c : Char) : List Char :=
  match c with
  | '"' => ['\\', '"']
  | '\\' => ['\\', '\\']
  | '\x08' => ['\\', 'b']
  | '\x0c' => ['\\', 'f']
  | '\n' => ['\\', 'n']
  | '\r' => ['\\', 'r']
  | '\t' => ['\\', 't']
  | c =>
    if c.toNat < 0x20 then
      ['\\', 'u', '0', '0', Text.hexDigit (c.toNat / 16), Text.hexDigit (c.toNat % 16)]
    else [c]

def quote (s : String) : String :=
  String.ofList ('"' :: (s.toList.flatMap escapeChar ++ ['"']))

mutual

def render : Json → String
  | null => "null"
  | bool true => "true"
  | bool false => "false"
  | num n => n.text
  | str s => quote s
  | arr items => "[" ++ renderItems items ++ "]"
  | obj fields => "\x7b" ++ renderFields fields ++ "\x7d"

def renderItems : List Json → String
  | [] => ""
  | [j] => render j
  | j :: js => render j ++ "," ++ renderItems js

def renderFields : List (String × Json) → String
  | [] => ""
  | [(k, j)] => quote k ++ ":" ++ render j
  | (k, j) :: fs => quote k ++ ":" ++ render j ++ "," ++ renderFields fs

end

example : render (mkObj [("b", .null), ("a", arr [ofNat 1, str "x\"\n"])])
    = "\x7b\"a\":[1,\"x\\\"\\n\"],\"b\":null\x7d" := by decide +kernel

end Json

end ContractDeploy
