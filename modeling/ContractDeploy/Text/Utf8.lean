
namespace ContractDeploy

namespace Utf8

def encodeChar (c : Char) : List Nat :=
  let n := c.toNat
  if n < 0x80 then [n]
  else if n < 0x800 then [0xC0 + n / 0x40, 0x80 + n % 0x40]
  else if n < 0x10000 then [0xE0 + n / 0x1000, 0x80 + n / 0x40 % 0x40, 0x80 + n % 0x40]
  else [0xF0 + n / 0x40000, 0x80 + n / 0x1000 % 0x40, 0x80 + n / 0x40 % 0x40, 0x80 + n % 0x40]

def encode (s : String) : List Nat := s.toList.flatMap encodeChar

def splitAt : Nat → List Char → List Char × List Char
  | _, [] => ([], [])
  | n, c :: cs =>
    if c.utf8Size ≤ n then
      let (a, b) := splitAt (n - c.utf8Size) cs
      (c :: a, b)
    else ([], c :: cs)

def isBoundary : Nat → List Char → Bool
  | 0, _ => true
  | _, [] => false
  | n, c :: cs => c.utf8Size ≤ n && isBoundary (n - c.utf8Size) cs

def slice (cs : List Char) (a b : Nat) : List Char := (splitAt (b - a) (splitAt a cs).2).1

structure DecodeError where
  validUpTo : Nat
  errorLen : Option Nat
  deriving DecidableEq, Repr

def DecodeError.message (e : DecodeError) : String :=
  match e.errorLen with
  | some n => s!"invalid utf-8 sequence of {n} bytes from index {e.validUpTo}"
  | none => s!"incomplete utf-8 byte sequence from index {e.validUpTo}"

def isTail (b : Nat) : Bool := 0x80 ≤ b && b ≤ 0xBF

def secondOf3 (a b : Nat) : Bool :=
  if a = 0xE0 then 0xA0 ≤ b && b ≤ 0xBF
  else if a = 0xED then 0x80 ≤ b && b ≤ 0x9F
  else isTail b

def secondOf4 (a b : Nat) : Bool :=
  if a = 0xF0 then 0x90 ≤ b && b ≤ 0xBF
  else if a = 0xF4 then 0x80 ≤ b && b ≤ 0x8F
  else isTail b

/-- Decodes bytes that start at offset `at` of the whole input. -/
def decodeFrom (offset : Nat) : List Nat → Except DecodeError (List Char)
  | [] => .ok []
  | a :: rest =>
    let bad (len : Option Nat) : Except DecodeError (List Char) := .error ⟨offset, len⟩
    if a < 0x80 then (Char.ofNat a :: ·) <$> decodeFrom (offset + 1) rest
    else if 0xC2 ≤ a && a ≤ 0xDF then
      match rest with
      | [] => bad none
      | b :: rest =>
        if isTail b then (Char.ofNat ((a - 0xC0) * 0x40 + (b - 0x80)) :: ·) <$> decodeFrom (offset + 2) rest
        else bad (some 1)
    else if 0xE0 ≤ a && a ≤ 0xEF then
      match rest with
      | [] => bad none
      | b :: rest =>
        if !secondOf3 a b then bad (some 1)
        else match rest with
          | [] => bad none
          | c :: rest =>
            if isTail c then
              (Char.ofNat ((a - 0xE0) * 0x1000 + (b - 0x80) * 0x40 + (c - 0x80)) :: ·)
                <$> decodeFrom (offset + 3) rest
            else bad (some 2)
    else if 0xF0 ≤ a && a ≤ 0xF4 then
      match rest with
      | [] => bad none
      | b :: rest =>
        if !secondOf4 a b then bad (some 1)
        else match rest with
          | [] => bad none
          | c :: rest =>
            if !isTail c then bad (some 2)
            else match rest with
              | [] => bad none
              | d :: rest =>
                if isTail d then
                  (Char.ofNat ((a - 0xF0) * 0x40000 + (b - 0x80) * 0x1000 + (c - 0x80) * 0x40
                    + (d - 0x80)) :: ·) <$> decodeFrom (offset + 4) rest
                else bad (some 3)
    else bad (some 1)

def decode (bytes : List Nat) : Except DecodeError String := String.ofList <$> decodeFrom 0 bytes

example : decode [0x61, 0xC3, 0xA9] = .ok "aé" := rfl
example : decode [0x61, 0xE2, 0x82] = .error ⟨1, none⟩ := rfl
example : decode [0xED, 0xA0, 0x80] = .error ⟨0, some 1⟩ := rfl

end Utf8

end ContractDeploy
