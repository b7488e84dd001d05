
namespace ContractDeploy

structure Binary64 where
  negative : Bool
  mantissa : Nat
  exponent : Int
  narrowBelow : Bool
  deriving Repr

namespace Binary64

def fractionBits : Nat := 52

def bias : Nat := 1023

def decode (x : Float) : Binary64 :=
  let b : Nat := x.toBits.toNat
  let e : Nat := (b / Nat.pow 2 fractionBits) % Nat.pow 2 11
  let f : Nat := b % Nat.pow 2 fractionBits
  if e = 0 then
    ⟨b ≥ Nat.pow 2 63, f, -1074, false⟩
  else
    ⟨b ≥ Nat.pow 2 63, Nat.pow 2 fractionBits + f, Int.ofNat e - 1075, f == 0 && e > 1⟩

def packNormal (m e : Nat) : UInt64 :=
  if e ≥ 2047 then 0x7FF0000000000000
  else UInt64.ofNat (e * Nat.pow 2 fractionBits + (m - Nat.pow 2 fractionBits))

def ofNat (n : Nat) : Float :=
  if n = 0 then 0.0
  else
    let top := n.log2
    if top ≤ fractionBits then
      Float.ofBits (packNormal (n * Nat.pow 2 (fractionBits - top)) (top + bias))
    else
      let shift := top - fractionBits
      let m := n / Nat.pow 2 shift
      let rest := n % Nat.pow 2 shift
      let half := Nat.pow 2 (shift - 1)
      let up := rest > half || (rest == half && m % 2 == 1)
      let m := if up then m + 1 else m
      if m = Nat.pow 2 (fractionBits + 1) then
        Float.ofBits (packNormal (Nat.pow 2 fractionBits) (top + 1 + bias))
      else
        Float.ofBits (packNormal m (top + bias))

example : (ofNat 1).toBits = (1.0 : Float).toBits := by decide +kernel
example : (ofNat (2 ^ 53 + 1)).toBits = (ofNat (2 ^ 53)).toBits := by decide +kernel
example : (ofNat (2 ^ 53 + 3)).toBits = (ofNat (2 ^ 53 + 4)).toBits := by decide +kernel

end Binary64

end ContractDeploy
