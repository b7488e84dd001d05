
namespace ContractDeploy

namespace Text

structure CharRanges where
  ranges : Array (Nat × Nat)

namespace CharRanges

def containsBetween (t : CharRanges) (n : Nat) (lo hi : Nat) : Bool :=
  if lo < hi then
    let mid := (lo + hi) / 2
    match t.ranges[mid]? with
    | some (a, b) =>
      if n < a then t.containsBetween n lo mid
      else if b < n then t.containsBetween n (mid + 1) hi
      else true
    | none => false
  else false
termination_by hi - lo

def contains (t : CharRanges) (n : Nat) : Bool := t.containsBetween n 0 t.ranges.size

def Mem (t : CharRanges) (n : Nat) : Prop := ∃ r ∈ t.ranges.toList, r.1 ≤ n ∧ n ≤ r.2

end CharRanges

end Text

end ContractDeploy
