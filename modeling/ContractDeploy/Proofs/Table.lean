import ContractDeploy.Table
import Mathlib.Data.String.Basic

namespace ContractDeploy.Table

variable {α : Type} {t : Table α}

-- What `insert` and `erase` do to the entries, in any table: `insert` adds its binding and may
-- drop the old one, `erase` drops every binding of its key.

theorem mem_insertEntry_self : (k, v) ∈ insertEntry k v l := by
  induction l
  case nil => simp [insertEntry]
  case cons e' rest ih =>
    simp only [insertEntry]
    split
    · simp
    · split
      · simp
      · exact List.mem_cons_of_mem _ ih

theorem mem_insert (h : e ∈ (t.insert k v).toList) : e = (k, v) ∨ e ∈ t.toList :=
  mem_insertEntry h

@[simp] theorem mem_insert_self : (k, v) ∈ (t.insert k v).toList := mem_insertEntry_self

@[simp] theorem mem_erase : e ∈ (t.erase k).toList ↔ e ∈ t.toList ∧ e.1 ≠ k := by
  simp [erase, toList]

theorem mem_of_find? (h : t.find? k = some v) : (k, v) ∈ t.toList := by
  simp only [find?, Option.map_eq_some_iff] at h
  obtain ⟨e, he, hv⟩ := h
  have hk := List.find?_some he
  simp only [beq_iff_eq] at hk
  rw [← hv, ← hk]
  exact List.mem_of_find?_eq_some he

theorem find?_eq_none (h : t.find? k = none) : ∀ v, (k, v) ∉ t.toList := by
  intro v hv
  simp only [find?, Option.map_eq_none_iff, List.find?_eq_none] at h
  exact h _ hv (by simp)

@[simp] theorem toList_empty : (empty : Table α).toList = [] := rfl

@[simp] theorem toList_emptyc : ({} : Table α).toList = [] := rfl

theorem mem_keys : k ∈ t.keys ↔ ∃ v, (k, v) ∈ t.toList := by
  simp [keys, toList]

theorem mem_keys_insert (h : k' ∈ (t.insert k v).keys) : k' = k ∨ k' ∈ t.keys := by
  have ⟨v', hv'⟩ := mem_keys.mp h
  rcases mem_insert hv' with he | he
  · exact .inl (Prod.mk.inj he).1
  · exact .inr (mem_keys.mpr ⟨v', he⟩)

@[simp] theorem mem_keys_erase : k' ∈ (t.erase k).keys ↔ k' ∈ t.keys ∧ k' ≠ k := by
  simp only [mem_keys, mem_erase]
  constructor
  · rintro ⟨v, hv, hk⟩
    exact ⟨⟨v, hv⟩, hk⟩
  · rintro ⟨⟨v, hv⟩, hk⟩
    exact ⟨v, hv, hk⟩

theorem find?_eq_none_iff : t.find? k = none ↔ k ∉ t.keys := by
  constructor
  · intro h hk
    have ⟨v, hv⟩ := mem_keys.mp hk
    exact find?_eq_none h v hv
  · intro h
    cases hf : t.find? k
    case none => rfl
    case some v => exact absurd (mem_keys.mpr ⟨v, mem_of_find? hf⟩) h

theorem ext_entries {t t' : Table α} (h : t.entries = t'.entries) : t = t' := by
  obtain ⟨es, hs⟩ := t
  obtain ⟨es', hs'⟩ := t'
  dsimp only at h
  subst h
  rfl

theorem insertEntry_of_mem {l : List (String × α)} (h : (l.map (·.1)).Pairwise (· < ·))
    (hm : (k, v) ∈ l) : insertEntry k v l = l := by
  induction l with
  | nil => simp at hm
  | cons e rest ih =>
    obtain ⟨k', v'⟩ := e
    simp only [List.map_cons, List.pairwise_cons] at h
    obtain ⟨hlt, hrest⟩ := h
    rcases List.mem_cons.mp hm with he | hm
    case inl =>
      simp only [Prod.mk.injEq] at he
      obtain ⟨rfl, rfl⟩ := he
      simp [insertEntry]
    case inr =>
      -- a later entry: `k'` is below `k`
      have hk' : k' < k := hlt k (List.mem_map_of_mem (f := (·.1)) hm)
      simp [insertEntry, not_lt.mpr hk'.le, hk'.ne', ih hrest hm]

theorem insert_of_mem (hm : (k, v) ∈ t.toList) : t.insert k v = t :=
  ext_entries (insertEntry_of_mem t.sorted hm)

theorem erase_of_not_mem (h : k ∉ t.keys) : t.erase k = t := by
  refine ext_entries (List.filter_eq_self.mpr fun e he => ?_)
  have : e.1 ≠ k := fun hk => h (mem_keys.mpr ⟨e.2, hk ▸ he⟩)
  simpa using this

end ContractDeploy.Table
