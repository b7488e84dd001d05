import ContractDeploy.Binary64

/-!
# The shortest decimal that reads back

For a positive binary64 value `v = m · 2^q`, the values that round to `v` form an interval
around it, its ends halfway to the neighbouring values and included exactly when `m` is even.
`Decimal.shortest` finds the fewest significant digits `d` and the exponent `t` with
`d · 10^t` in that interval, and of two such decimals on the same grid the one nearer to `v`,
an exact tie going to the even digit string.

All comparisons are made in exact natural arithmetic: the interval is kept in units of
`2^(q-2)` and every comparison of `a · 10^i` with `b · 2^j` is cross-multiplied.
-/

namespace ContractDeploy

namespace Decimal

def cmpScaled (a : Nat) (i : Int) (b : Nat) (j : Int) : Ordering :=
  compare (a * Nat.pow 10 i.toNat * Nat.pow 2 (-j).toNat) (b * Nat.pow 2 j.toNat * Nat.pow 10 (-i).toNat)

def digitCount (n : Nat) : Nat := (Nat.toDigits 10 n).length

structure RoundingInterval where
  low : Nat
  mid : Nat
  high : Nat
  unit : Int
  closed : Bool

def RoundingInterval.ofBinary (b : Binary64) : RoundingInterval :=
  ⟨4 * b.mantissa - (if b.narrowBelow then 1 else 2), 4 * b.mantissa, 4 * b.mantissa + 2,
    b.exponent - 2, b.mantissa % 2 == 0⟩

namespace RoundingInterval

def contains (r : RoundingInterval) (d : Nat) (t : Int) : Bool :=
  let lo := cmpScaled d t r.low r.unit
  let hi := cmpScaled d t r.high r.unit
  (lo == .gt || (r.closed && lo == .eq)) && (hi == .lt || (r.closed && hi == .eq))

def floorOn (r : RoundingInterval) (t : Int) : Nat :=
  (r.mid * Nat.pow 2 r.unit.toNat * Nat.pow 10 (-t).toNat) / (Nat.pow 2 (-r.unit).toNat * Nat.pow 10 t.toNat)

def magnitude (r : RoundingInterval) : Int :=
  let k : Int := (digitCount (r.mid * Nat.pow 2 r.unit.toNat) : Int)
    - (digitCount (Nat.pow 2 (-r.unit).toNat) : Int)
  if cmpScaled 1 k r.mid r.unit == .gt then k else k + 1

def onGrid (r : RoundingInterval) (t : Int) : Option Nat :=
  let d := r.floorOn t
  match r.contains d t, r.contains (d + 1) t with
  | true, true =>
    match cmpScaled (2 * d + 1) t (2 * r.mid) r.unit with
    | .lt => some (d + 1)
    | .gt => some d
    | .eq => some (if d % 2 == 0 then d else d + 1)
  | true, false => some d
  | false, true => some (d + 1)
  | false, false => none

def search (r : RoundingInterval) (k : Int) (n : Nat) : Nat → Option (Nat × Int)
  | 0 => none
  | more + 1 =>
    match r.onGrid (k - n) with
    | some d => some (d, k - n)
    | none => r.search k (n + 1) more

end RoundingInterval

def stripZeros (d : Nat) (t : Int) : Nat × Int :=
  if h : d ≠ 0 ∧ d % 10 = 0 then stripZeros (d / 10) (t + 1) else (d, t)
termination_by d
decreasing_by exact Nat.div_lt_self (Nat.pos_of_ne_zero h.1) (by decide)

/-- The shortest decimal `d · 10^t` that rounds to a positive finite value, its digit string
without trailing zeros. Seventeen digits always suffice. -/
def shortest (b : Binary64) : Nat × Int :=
  let r := RoundingInterval.ofBinary b
  let k := r.magnitude
  match r.search k 1 17 with
  | some (d, t) => stripZeros d t
  | none => stripZeros (r.floorOn (k - 17)) (k - 17)

example : shortest (Binary64.decode 0.5) = (5, -1) := by decide +kernel
example : shortest (Binary64.decode 0.1) = (1, -1) := by decide +kernel
example : shortest (Binary64.decode 1e23) = (1, 23) := by decide +kernel

end Decimal

end ContractDeploy
