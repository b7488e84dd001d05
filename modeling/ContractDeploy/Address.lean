import ContractDeploy.Text.Quoted
import ContractDeploy.Text.Utf8

/-!
# Account addresses

An account address is eight bytes, held as one 64-bit word whose most significant byte comes
first. It is written as sixteen lowercase hexadecimal digits (`Address.hex`), and in source
code as those digits after `0x` (`Address.literal`).

`Address.ofHex?` reads the hexadecimal text of an address: one leading `0x` (or else `0X`) is
dropped, an odd number of bytes gets a leading `0`, the bytes are read two at a time as
hexadecimal digits, and the value, at most eight bytes, is right aligned. Leading zeros count
towards the eight bytes. The first byte that is no hexadecimal digit is the fault, found before
the length is looked at.

`Address.hexWith` and `Address.ofHexWith` take the byte encoder and the pair decoder as
arguments; `hex` and `ofHex?` give them `hexByte` and `pairs`.
-/

namespace ContractDeploy

structure Address where
  word : UInt64
  deriving DecidableEq, Inhabited, Repr

inductive AddressFault where
  | empty
  | badDigit (c : Char) (index : Nat)
  | tooLong
  deriving DecidableEq, Repr

namespace AddressFault

def reason : AddressFault → String
  | empty => "address is empty"
  | badDigit c i => s!"Invalid character {Text.quoteChar c} at position {i}"
  | tooLong => "address is longer than 8 bytes"

end AddressFault

namespace Address

def size : Nat := 8

def zero : Address := ⟨0⟩

def bytes (a : Address) : List Nat :=
  (List.range size).map fun i => a.word.toNat / Nat.pow 256 (size - 1 - i) % 256

def hexByte (b : Nat) : List Char := [Text.hexDigit (b / 16), Text.hexDigit (b % 16)]

def hexWith (encode : List Nat → List Char) (a : Address) : String := String.ofList (encode a.bytes)

def hex (a : Address) : String := a.hexWith (·.flatMap hexByte)

def literal (a : Address) : String := "0x" ++ a.hex

def isZero (a : Address) : Bool := a.word == 0

def digitValue (b : Nat) : Option Nat :=
  if 0x30 ≤ b && b ≤ 0x39 then some (b - 0x30)
  else if 0x61 ≤ b && b ≤ 0x66 then some (b - 0x61 + 10)
  else if 0x41 ≤ b && b ≤ 0x46 then some (b - 0x41 + 10)
  else none

/-- Reads bytes as pairs of hexadecimal digits, the first of them at `index`; gives the bytes
read. -/
def pairs (index : Nat) : List Nat → Except AddressFault (List Nat)
  | [] => .ok []
  | [b] => match digitValue b with
    | some _ => .ok []
    | none => .error (.badDigit (Char.ofNat b) index)
  | hi :: lo :: rest =>
    match digitValue hi, digitValue lo with
    | none, _ => .error (.badDigit (Char.ofNat hi) index)
    | some _, none => .error (.badDigit (Char.ofNat lo) (index + 1))
    | some h, some l => ((h * 16 + l) :: ·) <$> pairs (index + 2) rest

def digitsOf (s : String) : List Char :=
  match s.toList with
  | '0' :: 'x' :: rest => rest
  | '0' :: 'X' :: rest => rest
  | cs => cs

/-- Reads the hexadecimal text of an address, the padded digits decoded by `decode`. -/
def ofHexWith (decode : List Nat → Except AddressFault (List Nat)) (s : String) :
    Except AddressFault Address := do
  let digits := Utf8.encode (String.ofList (digitsOf s))
  if digits.isEmpty then throw .empty
  let padded := if digits.length % 2 = 1 then 0x30 :: digits else digits
  let bs ← decode padded
  if bs.length > size then throw .tooLong
  return ⟨UInt64.ofNat (bs.foldl (fun acc b => acc * 256 + b) 0)⟩

def ofHex? (s : String) : Except AddressFault Address := ofHexWith (pairs 0) s

example : (ofHex? "0x1").toOption.map literal = some "0x0000000000000001" := by decide +kernel
example : (match ofHex? "0xzz" with | .error f => f.reason | .ok _ => "") =
    "Invalid character 'z' at position 0" := by decide +kernel

end Address

end ContractDeploy
