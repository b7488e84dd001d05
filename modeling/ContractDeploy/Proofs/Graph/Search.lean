import ContractDeploy.Proofs.Graph.Order
import Mathlib.Algebra.Order.BigOperators.Group.Finset

namespace ContractDeploy

open Relation

-- `a` and `b` reach each other.
def Strong (rel : Nat → Nat → Prop) (a b : Nat) : Prop := ReflTransGen rel a b ∧ ReflTransGen rel b a

namespace Strong

variable {rel : Nat → Nat → Prop} {a b c : Nat}

theorem refl (a : Nat) : Strong rel a a := ⟨.refl, .refl⟩

theorem symm (h : Strong rel a b) : Strong rel b a := ⟨h.2, h.1⟩

theorem trans (h₁ : Strong rel a b) (h₂ : Strong rel b c) : Strong rel a c :=
  ⟨h₁.1.trans h₂.1, h₂.2.trans h₁.2⟩

theorem transGen_self_iff : TransGen rel a a ↔ (∃ b ≠ a, Strong rel a b) ∨ rel a a := by
  constructor
  · intro h
    obtain ⟨b, hab, hba⟩ := TransGen.head'_iff.mp h
    by_cases hb : b = a
    · exact .inr (hb ▸ hab)
    · exact .inl ⟨b, hb, .single hab, hba⟩
  · rintro (⟨b, hb, hab, hba⟩ | h)
    · rcases reflTransGen_iff_eq_or_transGen.mp hab with rfl | hab
      · exact absurd rfl hb
      · exact hab.trans_left hba
    · exact .single h

end Strong

namespace Graph

variable {next : Array (List Nat)} {s s' s₁ : Array Bool} {ws F F₁ : List Nat} {u v w : Nat}

-- Node `w` is marked in `s`; a node past the end counts as marked, as the search takes it.
def Marked (s : Array Bool) (w : Nat) : Prop := s[w]?.getD true = true

instance (s : Array Bool) (w : Nat) : Decidable (Marked s w) :=
  inferInstanceAs (Decidable (_ = true))

-- `next` has an edge from `a` to `b`.
def Arc (next : Array (List Nat)) (a b : Nat) : Prop := b ∈ next[a]?.getD []

theorem marked_of_size_le (h : s.size ≤ w) : Marked s w := by
  simp [Marked, Array.getElem?_eq_none h]

theorem lt_size_of_not_marked (h : ¬Marked s w) : w < s.size :=
  Nat.lt_of_not_le fun hle => h (marked_of_size_le hle)

@[simp] theorem marked_setIfInBounds : Marked (s.setIfInBounds v true) u ↔ u = v ∨ Marked s u := by
  by_cases huv : u = v
  · subst huv
    by_cases hu : u < s.size
    · simp [Marked, hu]
    · simp [marked_of_size_le (Nat.le_of_not_lt hu), Array.setIfInBounds_eq_of_size_le
        (Nat.le_of_not_lt hu)]
  · simp [Marked, Array.getElem?_setIfInBounds_ne (Ne.symm huv), huv]

theorem marked_replicate : Marked (Array.replicate n false) u ↔ n ≤ u := by
  by_cases hu : u < n
  · simp [Marked, hu]
  · simp [Marked, Nat.le_of_not_lt hu]

-- `Walk next s ws s' F`: taking the nodes `ws` in turn from the marks `s`, each marked one is
-- passed over, and each other one is marked, searched from along its list in `next` and closed.
-- The marks are then `s'`, and `F` lists the nodes closed, the first closed first.
inductive Walk (next : Array (List Nat)) : Array Bool → List Nat → Array Bool → List Nat → Prop
  | nil {s : Array Bool} : Walk next s [] s []
  | seen {s s' : Array Bool} {w : Nat} {ws F : List Nat} :
      Marked s w → Walk next s ws s' F → Walk next s (w :: ws) s' F
  | visit {s s₁ s₂ : Array Bool} {w : Nat} {ws F₁ F₂ : List Nat} :
      ¬Marked s w → Walk next (s.setIfInBounds w true) (next[w]?.getD []) s₁ F₁ →
      Walk next s₁ ws s₂ F₂ → Walk next s (w :: ws) s₂ (F₁ ++ w :: F₂)

-- The work left to a search at the nodes not yet marked: to open and close each, and follow
-- each of its edges.
def unvisitedWork (next : Array (List Nat)) (s : Array Bool) : Nat :=
  ∑ w ∈ Finset.range s.size, if Marked s w then 0 else (next[w]?.getD []).length + 1

theorem unvisitedWork_setIfInBounds (next : Array (List Nat)) (hv : ¬Marked s v) :
    unvisitedWork next (s.setIfInBounds v true) + ((next[v]?.getD []).length + 1) =
      unvisitedWork next s := by
  have hv' : v ∈ Finset.range s.size := Finset.mem_range.mpr (lt_size_of_not_marked hv)
  simp only [unvisitedWork, Array.size_setIfInBounds]
  rw [← Finset.add_sum_erase _ _ hv', ← Finset.add_sum_erase _ _ hv']
  -- the terms at other nodes agree, and the one at `v` is what marking it takes away
  have hrest : ∀ x ∈ (Finset.range s.size).erase v,
      (if Marked (s.setIfInBounds v true) x then 0 else (next[x]?.getD []).length + 1) =
        if Marked s x then 0 else (next[x]?.getD []).length + 1 := by
    intro x hx
    simp [(Finset.mem_erase.mp hx).1]
  rw [Finset.sum_congr rfl hrest]
  simp [hv]
  omega

theorem unvisitedWork_le (next : Array (List Nat)) (hsize : s'.size = s.size)
    (hmono : ∀ u, Marked s u → Marked s' u) :
    unvisitedWork next s' ≤ unvisitedWork next s := by
  rw [unvisitedWork, unvisitedWork, hsize]
  refine Finset.sum_le_sum fun x _ => ?_
  by_cases hx : Marked s x
  · simp [hx, hmono x hx]
  · split <;> simp

theorem unvisitedWork_le_sum :
    unvisitedWork next s ≤ s.size + ∑ w ∈ Finset.range s.size, (next[w]?.getD []).length := by
  calc unvisitedWork next s ≤ ∑ w ∈ Finset.range s.size, ((next[w]?.getD []).length + 1) :=
        Finset.sum_le_sum fun x _ => by split <;> simp
    _ = s.size + ∑ w ∈ Finset.range s.size, (next[w]?.getD []).length := by
        rw [Finset.sum_add_distrib]
        simp [Nat.add_comm]

theorem search_nil (fuel : Nat) : search next fuel [] s ws = (s, ws) := by
  cases fuel <;> rfl

namespace Walk

theorem size (h : Walk next s ws s' F) : s'.size = s.size := by
  induction h
  case nil => rfl
  case seen ih => exact ih
  case visit ih₁ ih₂ => rw [ih₂, ih₁, Array.size_setIfInBounds]

theorem mono (h : Walk next s ws s' F) (hu : Marked s u) : Marked s' u := by
  induction h
  case nil => exact hu
  case seen ih => exact ih hu
  case visit ih₁ ih₂ => exact ih₂ (ih₁ (marked_setIfInBounds.mpr (.inr hu)))

theorem marked_of_mem (h : Walk next s ws s' F) (hw : w ∈ ws) : Marked s' w := by
  induction h
  case nil => cases hw
  case seen hs h ih =>
    rcases List.mem_cons.mp hw with rfl | hw
    · exact h.mono hs
    · exact ih hw
  case visit h₁ h₂ _ ih₂ =>
    rcases List.mem_cons.mp hw with rfl | hw
    · exact h₂.mono (h₁.mono (marked_setIfInBounds.mpr (.inl rfl)))
    · exact ih₂ hw

theorem mem_iff (h : Walk next s ws s' F) : u ∈ F ↔ Marked s' u ∧ ¬Marked s u := by
  induction h with
  | nil => simp
  | seen _ _ ih => exact ih
  | @visit s s₁ s₂ w ws F₁ F₂ hw h₁ h₂ ih₁ ih₂ =>
    rw [List.mem_append, List.mem_cons, ih₁, ih₂, marked_setIfInBounds]
    have hw₁ : Marked s₁ w := h₁.mono (marked_setIfInBounds.mpr (.inl rfl))
    constructor
    · rintro (⟨hu₁, hu⟩ | rfl | ⟨hu₂, hu₁⟩)
      · exact ⟨h₂.mono hu₁, fun hs => hu (.inr hs)⟩
      · exact ⟨h₂.mono hw₁, hw⟩
      · exact ⟨hu₂, fun hs => hu₁ (h₁.mono (marked_setIfInBounds.mpr (.inr hs)))⟩
    · rintro ⟨hu₂, hu⟩
      by_cases hu₁ : Marked s₁ u
      · by_cases huw : u = w
        · exact .inr (.inl huw)
        · exact .inl ⟨hu₁, by tauto⟩
      · exact .inr (.inr ⟨hu₂, hu₁⟩)

theorem nodup (h : Walk next s ws s' F) : F.Nodup := by
  induction h with
  | nil => exact List.nodup_nil
  | seen _ _ ih => exact ih
  | @visit s s₁ s₂ w ws F₁ F₂ hw h₁ h₂ ih₁ ih₂ =>
    have hw₁ : Marked s₁ w := h₁.mono (marked_setIfInBounds.mpr (.inl rfl))
    -- the nodes closed by the search from `w` are marked before `w` and all after it
    refine List.nodup_append.mpr ⟨ih₁, List.nodup_cons.mpr ⟨fun hw₂ => ?_, ih₂⟩, ?_⟩
    · exact (h₂.mem_iff.mp hw₂).2 hw₁
    · intro a ha b hb hab
      subst hab
      rcases List.mem_cons.mp hb with rfl | hb
      · exact (h₁.mem_iff.mp ha).2 (marked_setIfInBounds.mpr (.inl rfl))
      · exact (h₂.mem_iff.mp hb).2 (h₁.mem_iff.mp ha).1

theorem closed (h : Walk next s ws s' F) (hu : u ∈ F) (ha : Arc next u v) : Marked s' v := by
  induction h
  case nil => cases hu
  case seen ih => exact ih hu
  case visit h₁ h₂ ih₁ ih₂ =>
    rcases List.mem_append.mp hu with hu | hu
    · exact h₂.mono (ih₁ hu)
    · rcases List.mem_cons.mp hu with rfl | hu
      · exact h₂.mono (h₁.marked_of_mem ha)
      · exact ih₂ hu

theorem reach (h : Walk next s ws s' F) (hu : u ∈ F) : ∃ w ∈ ws, ReflTransGen (Arc next) w u := by
  induction h with
  | nil => cases hu
  | seen _ _ ih =>
    have ⟨w, hw, hr⟩ := ih hu
    exact ⟨w, List.mem_cons_of_mem _ hw, hr⟩
  | @visit s s₁ s₂ w ws F₁ F₂ hw h₁ h₂ ih₁ ih₂ =>
    rcases List.mem_append.mp hu with hu | hu
    · have ⟨w', hw', hr⟩ := ih₁ hu
      exact ⟨w, List.mem_cons_self, .head hw' hr⟩
    · rcases List.mem_cons.mp hu with rfl | hu
      · exact ⟨u, List.mem_cons_self, .refl⟩
      · have ⟨w', hw', hr⟩ := ih₂ hu
        exact ⟨w', List.mem_cons_of_mem _ hw', hr⟩

-- What the search from an unmarked `w` newly marks: `w` and the nodes it closes, all reached
-- from `w`, and with them every node they lead to.
theorem visit_new (h : Walk next (s.setIfInBounds w true) (next[w]?.getD []) s₁ F₁)
    (hu : Marked s₁ u) (hu' : ¬Marked s u) :
    (u = w ∨ u ∈ F₁) ∧ ReflTransGen (Arc next) w u ∧ ∀ v, Arc next u v → Marked s₁ v := by
  by_cases huw : u = w
  · subst huw
    exact ⟨.inl rfl, .refl, fun v hv => h.marked_of_mem hv⟩
  · have huF : u ∈ F₁ := h.mem_iff.mpr ⟨hu, by simp [huw, hu']⟩
    have ⟨w', hw', hr⟩ := h.reach huF
    exact ⟨.inr huF, .head hw' hr, fun v hv => h.closed huF hv⟩

theorem visit_mem_iff (h : Walk next (s.setIfInBounds w true) (next[w]?.getD []) s₁ F₁)
    (hw : ¬Marked s w) : u = w ∨ u ∈ F₁ ↔ Marked s₁ u ∧ ¬Marked s u := by
  rw [h.mem_iff, marked_setIfInBounds]
  by_cases huw : u = w
  · subst huw
    exact ⟨fun _ => ⟨h.mono (marked_setIfInBounds.mpr (.inl rfl)), hw⟩, fun _ => .inl rfl⟩
  · tauto

theorem visit_reach (h : Walk next (s.setIfInBounds w true) (next[w]?.getD []) s₁ F₁)
    (hw : ¬Marked s w) (hr : ReflTransGen (fun a b => Arc next a b ∧ ¬Marked s b) w u) :
    Marked s₁ u ∧ ¬Marked s u := by
  induction hr
  case refl => exact ⟨h.mono (marked_setIfInBounds.mpr (.inl rfl)), hw⟩
  case tail hab ih =>
    exact ⟨(h.visit_new ih.1 ih.2).2.2 _ hab.1, hab.2⟩

-- The stack search runs a walk: with the list of a frame on top of the stack, it follows the
-- walk in as many steps as it takes, at most the work the walk does, and leaves the frame with
-- its list done.
theorem search (h : Walk next s ws s' F) :
    ∃ k, k + unvisitedWork next s' ≤ ws.length + unvisitedWork next s ∧
      ∀ fuel x stack done, Graph.search next (fuel + k) ((x, ws) :: stack) s done =
        Graph.search next fuel ((x, []) :: stack) s' (F.reverse ++ done) := by
  induction h with
  | nil => exact ⟨0, by simp, fun _ _ _ _ => by simp⟩
  | @seen s s' w ws F hw _ ih =>
    have ⟨k, hk, hrun⟩ := ih
    refine ⟨k + 1, by simp only [List.length_cons]; omega, fun fuel x stack done => ?_⟩
    rw [← Nat.add_assoc, Graph.search, if_pos (show s[w]?.getD true = true from hw)]
    exact hrun fuel x stack done
  | @visit s s₁ s₂ w ws F₁ F₂ hw h₁ h₂ ih₁ ih₂ =>
    have ⟨k₁, hk₁, hrun₁⟩ := ih₁
    have ⟨k₂, hk₂, hrun₂⟩ := ih₂
    have hwork := unvisitedWork_setIfInBounds next hw
    refine ⟨k₁ + k₂ + 2, by simp only [List.length_cons]; omega, fun fuel x stack done => ?_⟩
    -- open `w`, walk its list, close it, then walk the rest
    rw [show fuel + (k₁ + k₂ + 2) = fuel + k₂ + 1 + k₁ + 1 by omega, Graph.search,
      if_neg (show ¬s[w]?.getD true = true from hw), hrun₁, Graph.search, hrun₂]
    simp

theorem exists_walk (next : Array (List Nat)) (s : Array Bool) (ws : List Nat) :
    ∃ s' F, Walk next s ws s' F := by
  induction hn : unvisitedWork next s using Nat.strong_induction_on generalizing s ws with
  | _ n ih =>
    induction ws
    case nil => exact ⟨s, [], .nil⟩
    case cons w ws ihws =>
      by_cases hw : Marked s w
      · have ⟨s', F, h⟩ := ihws
        exact ⟨s', F, .seen hw h⟩
      · -- the search from `w` and the walk after it both start with less work left
        have hwork := unvisitedWork_setIfInBounds next hw
        have ⟨s₁, F₁, h₁⟩ := ih _ (by omega) (s.setIfInBounds w true) (next[w]?.getD []) rfl
        have hle := unvisitedWork_le next h₁.size fun u hu => h₁.mono hu
        have ⟨s₂, F₂, h₂⟩ := ih _ (by omega) s₁ ws rfl
        exact ⟨s₂, F₁ ++ w :: F₂, .visit hw h₁ h₂⟩

end Walk

theorem Walk.searchFrom {g : Graph} {done : List Nat}
    (h : Walk next (s.setIfInBounds v true) (next[v]?.getD []) s' F) (hv : ¬Marked s v)
    (hwork : unvisitedWork next s ≤ g.size + g.edges.size) :
    g.searchFrom next v s done = (s', v :: F.reverse ++ done) := by
  have ⟨k, hk, hrun⟩ := h.search
  have hset := unvisitedWork_setIfInBounds next hv
  rw [Graph.searchFrom, show g.size + g.edges.size + 1 = g.size + g.edges.size - k + k + 1 by omega,
    Nat.add_right_comm, hrun, Graph.search, search_nil]
  rfl

end Graph

end ContractDeploy
