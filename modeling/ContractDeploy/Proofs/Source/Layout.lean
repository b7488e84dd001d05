import ContractDeploy.Source.Position
import ContractDeploy.Text.Utf8
import Mathlib.Data.List.Forall2
import Mathlib.Algebra.GroupWithZero.Nat

namespace ContractDeploy

namespace Utf8

-- The number of bytes of a text in UTF-8.
def byteCount (cs : List Char) : Nat := (cs.map Char.utf8Size).sum

@[simp] theorem byteCount_nil : byteCount [] = 0 := rfl

@[simp] theorem byteCount_cons : byteCount (c :: cs) = c.utf8Size + byteCount cs := by
  simp [byteCount]

@[simp] theorem byteCount_append : byteCount (xs ++ ys) = byteCount xs + byteCount ys := by
  simp [byteCount]

theorem utf8ByteSize_ofList (cs : List Char) : (String.ofList cs).utf8ByteSize = byteCount cs := by
  induction cs
  case nil => rfl
  case cons c cs ih =>
    rw [String.ofList_cons, String.utf8ByteSize_append, String.utf8ByteSize_singleton, ih,
      byteCount_cons]

theorem utf8ByteSize_eq (s : String) : s.utf8ByteSize = byteCount s.toList := by
  conv => lhs; rw [← String.ofList_toList (s := s)]
  exact utf8ByteSize_ofList s.toList

-- Every character takes a byte at least, so the bytes of a prefix end exactly after it.
theorem splitAt_byteCount (p r : List Char) : splitAt (byteCount p) (p ++ r) = (p, r) := by
  induction p
  case nil =>
    cases r
    case nil => rfl
    case cons c cs => simp [splitAt, Nat.pos_iff_ne_zero.mp (Char.utf8Size_pos c)]
  case cons c p ih => simp [splitAt, ih]

theorem eq_of_byteCount_eq {p p' r r' : List Char} (h : p ++ r = p' ++ r')
    (hb : byteCount p = byteCount p') : p = p' := by
  have hsplit := splitAt_byteCount p r
  rw [h, hb, splitAt_byteCount] at hsplit
  exact (Prod.mk.inj hsplit).1.symm

theorem slice_eq (p m r : List Char) :
    slice (p ++ m ++ r) (byteCount p) (byteCount p + byteCount m) = m := by
  rw [slice, List.append_assoc, splitAt_byteCount, Nat.add_sub_cancel_left, splitAt_byteCount]

end Utf8

namespace Position

@[simp] theorem offset_advance (p : Position) (c : Char) :
    (p.advance c).offset = p.offset + c.utf8Size := by
  unfold advance
  split <;> rfl

theorem offset_advanceAll (p : Position) (cs : List Char) :
    (p.advanceAll cs).offset = p.offset + Utf8.byteCount cs := by
  induction cs generalizing p
  case nil => simp
  case cons c cs ih => simp [ih, Nat.add_assoc]

end Position

-- `Layout span P p cs xs`: reading `cs` from the position `p`, each item of `xs` in turn spans
-- the text after a gap; `P` holds of each item and the text it spans.
inductive Layout {α : Type} (span : α → Span) (P : α → List Char → Prop) :
    Position → List Char → List α → Prop
  | nil : Layout span P p cs []
  | cons {p : Position} {cs gap lex rest : List Char} {x : α} {xs : List α} :
      cs = gap ++ lex ++ rest → (span x).start = p.advanceAll gap →
      (span x).stop = (span x).start.advanceAll lex → P x lex →
      Layout span P (span x).stop rest xs → Layout span P p cs (x :: xs)

namespace Layout

variable {α β : Type} {span : α → Span} {P : α → List Char → Prop}

theorem prepend (h : Layout span P (p.advanceAll m) cs xs) : Layout span P p (m ++ cs) xs := by
  cases h with
  | nil => exact .nil
  | @cons _ _ gap lex rest x xs he hst hsp hp hl =>
    have hst' : (span x).start = p.advanceAll (m ++ gap) := by
      rw [hst, Position.advanceAll_append]
    exact .cons (by simp [he]) hst' hsp hp hl

theorem sublist (h : Layout span P p cs xs) (hs : ys.Sublist xs) : Layout span P p cs ys := by
  induction h generalizing ys with
  | nil => exact List.eq_nil_of_sublist_nil hs ▸ .nil
  | @cons p cs gap lex rest x xs he hst hsp hp _ ih =>
    cases hs with
    | cons _ hs =>
      -- `x` left out: its gap and text join the next gap
      rw [he, List.append_assoc]
      exact prepend (prepend (by rw [← hst, ← hsp]; exact ih hs))
    | cons_cons _ hs => exact .cons he hst hsp hp (ih hs)

theorem filterMap {span' : β → Span} {P' : β → List Char → Prop} {f : α → Option β}
    (h : Layout span P p cs xs)
    (hf : ∀ x y lex, f x = some y → P x lex → span' y = span x ∧ P' y lex) :
    Layout span' P' p cs (xs.filterMap f) := by
  induction h with
  | nil => exact .nil
  | @cons p cs gap lex rest x xs he hst hsp hp _ ih =>
    cases hx : f x
    case none =>
      rw [List.filterMap_cons_none hx, he, List.append_assoc]
      exact prepend (prepend (by rw [← hst, ← hsp]; exact ih))
    case some y =>
      have ⟨hspan, hp'⟩ := hf x y lex hx hp
      rw [List.filterMap_cons_some hx]
      exact .cons he (hspan ▸ hst) (hspan ▸ hsp) hp' (hspan ▸ ih)

theorem forall₂ {span' : β → Span} {P' : β → List Char → Prop} {R : β → α → Prop}
    (h : Layout span P p cs xs) (hr : List.Forall₂ R ys xs)
    (hf : ∀ y x lex, R y x → P x lex → span' y = span x ∧ P' y lex) : Layout span' P' p cs ys := by
  induction h generalizing ys with
  | nil => exact List.forall₂_nil_right_iff.mp hr ▸ .nil
  | @cons p cs gap lex rest x xs he hst hsp hp _ ih =>
    cases hr with
    | cons hyx hr =>
      have ⟨hspan, hp'⟩ := hf _ x lex hyx hp
      exact .cons he (hspan ▸ hst) (hspan ▸ hsp) hp' (hspan ▸ ih hr)

theorem slice {T pre : List Char} (h : Layout span P p cs xs) (hT : T = pre ++ cs)
    (hp : p.offset = Utf8.byteCount pre) :
    ∀ x ∈ xs, P x (Utf8.slice T (span x).start.offset (span x).stop.offset) := by
  induction h generalizing pre with
  | nil => simp
  | @cons p cs gap lex rest x xs he hst hsp hx _ ih =>
    have hstart : (span x).start.offset = Utf8.byteCount (pre ++ gap) := by
      rw [hst, Position.offset_advanceAll, hp, Utf8.byteCount_append]
    have hstop : (span x).stop.offset = Utf8.byteCount (pre ++ gap) + Utf8.byteCount lex := by
      rw [hsp, Position.offset_advanceAll, hstart]
    have hT' : T = pre ++ gap ++ lex ++ rest := by rw [hT, he]; simp
    intro y hy
    rcases List.mem_cons.mp hy with rfl | hy
    · rw [hstart, hstop, hT', Utf8.slice_eq]
      exact hx
    · exact ih (by rw [hT']) (by rw [hstop, ← Utf8.byteCount_append]) y hy

end Layout

end ContractDeploy
