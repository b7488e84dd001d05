import Mathlib.Data.List.Sort

namespace ContractDeploy

section Stable

variable {α : Type} (key : α → Nat)

-- `o` holds the items of `l` in order of `key`, those with equal keys in their order in `l`.
structure StablyOrdered (l o : List α) : Prop where
  perm : o.Perm l
  sorted : o.Pairwise fun a b => key a ≤ key b
  stable : ∀ k, o.filter (key · == k) = l.filter (key · == k)

variable {key}

theorem key_head_le {a b : α} {t : List α} (h : (a :: t).Pairwise fun a b => key a ≤ key b)
    (hb : b ∈ a :: t) : key a ≤ key b := by
  rcases List.mem_cons.mp hb with rfl | hb
  · exact Nat.le_refl _
  · exact List.rel_of_pairwise_cons h hb

theorem mem_of_filter_eq {o₁ o₂ : List α} (hf : ∀ k, o₁.filter (key · == k) = o₂.filter (key · == k))
    {b : α} (hb : b ∈ o₂) : b ∈ o₁ := by
  have hself : b ∈ o₂.filter (key · == key b) := List.mem_filter.mpr ⟨hb, by simp⟩
  rw [← hf] at hself
  exact List.mem_of_mem_filter hself

theorem eq_of_filter_eq {o₁ o₂ : List α} (h₁ : o₁.Pairwise fun a b => key a ≤ key b)
    (h₂ : o₂.Pairwise fun a b => key a ≤ key b)
    (hf : ∀ k, o₁.filter (key · == k) = o₂.filter (key · == k)) : o₁ = o₂ := by
  induction o₁ generalizing o₂ with
  | nil =>
    cases o₂ with
    | nil => rfl
    | cons b t₂ => simpa using hf (key b)
  | cons a t₁ ih =>
    cases o₂ with
    | nil => simpa using hf (key a)
    | cons b t₂ =>
      -- the two heads have the least key, so the same one
      have hab : key a ≤ key b := key_head_le h₁ (mem_of_filter_eq hf List.mem_cons_self)
      have hba : key b ≤ key a :=
        key_head_le h₂ (mem_of_filter_eq (fun k => (hf k).symm) List.mem_cons_self)
      have hk : key b = key a := Nat.le_antisymm hba hab
      have hhead := hf (key a)
      simp only [List.filter_cons, beq_self_eq_true, hk, ite_true, List.cons.injEq] at hhead
      obtain ⟨rfl, -⟩ := hhead
      -- past the heads, the items of each key still come in the same order
      have htail : ∀ k, t₁.filter (key · == k) = t₂.filter (key · == k) := by
        intro k
        have := hf k
        by_cases hka : key a = k
        · simpa [List.filter_cons, hka] using this
        · simpa [List.filter_cons, hka] using this
      rw [ih h₁.of_cons h₂.of_cons htail]

theorem StablyOrdered.unique {l o₁ o₂ : List α} (h₁ : StablyOrdered key l o₁)
    (h₂ : StablyOrdered key l o₂) : o₁ = o₂ :=
  eq_of_filter_eq h₁.sorted h₂.sorted fun k => (h₁.stable k).trans (h₂.stable k).symm

theorem pairwise_filter_key (l : List α) (k : Nat) :
    (l.filter (key · == k)).Pairwise fun a b => key a ≤ key b := by
  refine List.Pairwise.imp_of_mem ?_ (List.pairwise_of_forall fun _ _ => trivial)
  intro a b ha hb _
  simp only [List.mem_filter, beq_iff_eq] at ha hb
  rw [ha.2, hb.2]

-- A sort is stable when each key's items of the list stay a sublist of its result.
theorem filter_eq_of_sublist {l o : List α} (hp : o.Perm l) (hs : List.Sublist (l.filter (key · == k)) o) :
    o.filter (key · == k) = l.filter (key · == k) := by
  have hsub := hs.filter (key · == k)
  rw [List.filter_filter, List.filter_congr (fun _ _ => Bool.and_self _)] at hsub
  refine (hsub.eq_of_length ?_).symm
  rw [(hp.filter _).length_eq]

-- Merge sort is stable: the items of one key form a sorted sublist, which it keeps in order.
theorem stablyOrdered_mergeSort (l : List α) :
    StablyOrdered key l (l.mergeSort fun a b => key a ≤ key b) := by
  have htrans : ∀ a b c : α, decide (key a ≤ key b) = true → decide (key b ≤ key c) = true →
      decide (key a ≤ key c) = true := by
    simp only [decide_eq_true_eq]
    exact fun _ _ _ => Nat.le_trans
  have htotal : ∀ a b : α, (decide (key a ≤ key b) || decide (key b ≤ key a)) = true := by
    intro a b
    simp only [Bool.or_eq_true, decide_eq_true_eq]
    exact Nat.le_total _ _
  refine ⟨List.mergeSort_perm l _, ?_, fun k => filter_eq_of_sublist (List.mergeSort_perm l _) ?_⟩
  · simpa using List.pairwise_mergeSort htrans htotal l
  · exact List.sublist_mergeSort htrans htotal
      ((pairwise_filter_key l k).imp fun h => decide_eq_true h) List.filter_sublist

theorem stablyOrdered_insertionSort (l : List α) :
    StablyOrdered key l (l.insertionSort fun a b => key a ≤ key b) := by
  have : Std.Total fun a b : α => key a ≤ key b := ⟨fun a b => Nat.le_total _ _⟩
  have : IsTrans α fun a b => key a ≤ key b := ⟨fun _ _ _ => Nat.le_trans⟩
  have hperm := List.perm_insertionSort (fun a b => key a ≤ key b) l
  refine ⟨hperm, List.pairwise_insertionSort _ l, fun k => filter_eq_of_sublist hperm ?_⟩
  exact List.sublist_insertionSort (pairwise_filter_key l k) List.filter_sublist

-- So the two sorts agree; insertion sort, by structural recursion, can be run in proofs.
theorem mergeSort_key_eq_insertionSort (l : List α) :
    (l.mergeSort fun a b => key a ≤ key b) = l.insertionSort fun a b => key a ≤ key b :=
  (stablyOrdered_mergeSort l).unique (stablyOrdered_insertionSort l)

end Stable

end ContractDeploy
