import ContractDeploy.Json.Value
import ContractDeploy.Decimal.Shortest

namespace ContractDeploy

namespace JsonNumber

structure Written where
  negative : Bool
  integer : List Nat
  fraction : Option (List Nat)
  exponent : Option (Bool × List Nat)

def maxSignificand : Nat := Nat.pow 2 64 - 1

def maxExponent : Nat := Nat.pow 2 31 - 1

def accumulate (bound : Nat) : Nat → List Nat → Nat × List Nat
  | acc, [] => (acc, [])
  | acc, d :: ds =>
    if acc * 10 + d > bound then (acc, d :: ds) else accumulate bound (acc * 10 + d) ds

def pow10 (i : Nat) : Float := Binary64.ofNat (Nat.pow 10 i)

def saturate (e : Int) : Int := max (-Int.pow 2 31) (min e (Int.pow 2 31 - 1))

def scale (f : Float) (e : Int) : Option Float :=
  if e.natAbs ≤ 308 then
    if e ≥ 0 then
      let g := f * pow10 e.natAbs
      if g.isInf then none else some g
    else some (f / pow10 e.natAbs)
  else if f == 0 then some f
  else if e ≥ 0 then none
  else scale (f / pow10 308) (e + 308)
termination_by e.natAbs
decreasing_by omega

def ofParts? (negative : Bool) (significand : Nat) (exponent : Int) : Option Float :=
  (scale (Binary64.ofNat significand) exponent).map fun f => if negative then -f else f

def ofWritten? (w : Written) : Option JsonNumber :=
  let (sig, dropped) := accumulate maxSignificand 0 w.integer
  if w.fraction.isNone && w.exponent.isNone && dropped.isEmpty then
    if !w.negative then some (.nat sig)
    else if sig = 0 then some (.float (-0.0))
    else if sig ≤ Nat.pow 2 63 then some (.neg (-(sig : Int)))
    else some (.float (-(Binary64.ofNat sig)))
  else
    -- the fraction extends the significand while it has room, also after an integer overflow
    let ds := w.fraction.getD []
    let (sig, rest) := accumulate maxSignificand sig ds
    let exp : Int := (dropped.length : Int) - ((ds.length - rest.length : Nat) : Int)
    match w.exponent with
    | none => (ofParts? w.negative sig exp).map .float
    | some (up, eds) =>
      let (e, erest) := accumulate maxExponent 0 eds
      if erest.isEmpty then
        (ofParts? w.negative sig (saturate (if up then exp + e else exp - e))).map .float
      else if sig ≠ 0 && up then none
      else some (.float (if w.negative then -0.0 else 0.0))

def digitsOf (n : Nat) : List Char := Nat.toDigits 10 n

def floatText (x : Float) : String :=
  if x.isNaN || x.isInf then "null"
  else
    let b := Binary64.decode x
    let sign := if b.negative then "-" else ""
    if b.mantissa = 0 then sign ++ "0.0"
    else
      let (d, t) := Decimal.shortest b
      let ds := digitsOf d
      let len : Int := ds.length
      let k := len + t
      let body : List Char :=
        if 0 ≤ t && k ≤ 16 then
          ds ++ List.replicate t.toNat '0' ++ ['.', '0']
        else if 0 < k && k ≤ 16 then
          ds.take k.toNat ++ '.' :: ds.drop k.toNat
        else if -5 < k && k ≤ 0 then
          '0' :: '.' :: List.replicate (-k).toNat '0' ++ ds
        else
          let mark := 'e' :: (toString (k - 1)).toList
          match ds with
          | [c] => c :: mark
          | c :: more => c :: '.' :: more ++ mark
          | [] => mark
      sign ++ String.ofList body

def text : JsonNumber → String
  | nat n => toString n
  | neg n => toString n
  | float x => floatText x

example : floatText 0.5 = "0.5" := by decide +kernel
example : floatText 1e16 = "1e16" := by decide +kernel
example : floatText 1e15 = "1000000000000000.0" := by decide +kernel
example : floatText 0.0001 = "0.0001" := by decide +kernel
example : floatText 1.5e-7 = "1.5e-7" := by decide +kernel

end JsonNumber

end ContractDeploy
