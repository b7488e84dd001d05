import ContractDeploy.Proofs.Graph.Basic
import Mathlib.Data.Fintype.Card
import Mathlib.Data.Fintype.Fin
import Mathlib.Order.WellFounded
import Mathlib.Data.List.Lex
import Std.Data.TreeMap.Lemmas
import Mathlib.Data.List.Perm.Subperm

namespace ContractDeploy

-- `a` stands in an earlier part of `l` than `b`.
def Precedes (l : List Nat) (a b : Nat) : Prop := ∃ l₁ l₂, l = l₁ ++ l₂ ∧ a ∈ l₁ ∧ b ∈ l₂

namespace Precedes

variable {l : List Nat}

theorem ne (hl : l.Nodup) (h : Precedes l a b) : a ≠ b := by
  have ⟨l₁, l₂, he, ha, hb⟩ := h
  rintro rfl
  exact List.disjoint_of_nodup_append (he ▸ hl) ha hb

theorem trans (hl : l.Nodup) (h₁ : Precedes l a b) (h₂ : Precedes l b c) : Precedes l a c := by
  have ⟨l₁, l₂, he, ha, hb⟩ := h₁
  have ⟨m₁, m₂, he', hb', hc⟩ := h₂
  rcases List.append_eq_append_iff.mp (he.symm.trans he') with ⟨a', rfl, rfl⟩ | ⟨c', rfl, rfl⟩
  case inl => exact ⟨l₁ ++ a', m₂, he', List.mem_append_left _ ha, hc⟩
  case inr =>
    -- `m₁` is a prefix of `l₁`, so `b` would stand in both halves of `l`
    exact (List.disjoint_of_nodup_append (he ▸ hl) (List.mem_append_left _ hb') hb).elim

theorem of_transGen {r : Nat → Nat → Prop} (hl : l.Nodup) (hr : ∀ a b, r a b → Precedes l a b)
    (h : Relation.TransGen r a b) : Precedes l a b := by
  induction h
  case single h => exact hr _ _ h
  case tail _ h ih => exact ih.trans hl (hr _ _ h)

theorem index {k : Nat} (hl : l.Nodup) (h : Precedes l a b) (hb : l[k]? = some b) :
    ∃ k' < k, l[k']? = some a := by
  obtain ⟨l₁, l₂, rfl, ha, hb₂⟩ := h
  obtain ⟨k', hk', rfl⟩ := List.getElem_of_mem ha
  refine ⟨k', ?_, by simp [List.getElem?_append_left hk']⟩
  by_contra hk
  have hkl : k < l₁.length := by omega
  rw [List.getElem?_append_left hkl] at hb
  exact List.disjoint_of_nodup_append hl (List.mem_of_getElem? hb) hb₂

end Precedes

namespace Graph

variable {g : Graph}

-- Node `j` may be placed after the nodes `P`: it is a node not yet placed whose incoming edges
-- all come from placed nodes.
def Ready (g : Graph) (P : List Nat) (j : Nat) : Prop :=
  j < g.size ∧ j ∉ P ∧ ∀ i, g.Adj i j → i ∈ P

-- `Greedy g P rest`: after the nodes `P`, repeatedly placing the ready node of least label
-- places `rest`, and then no node is ready.
inductive Greedy (g : Graph) : List Nat → List Nat → Prop
  | stop : (∀ j, ¬g.Ready P j) → Greedy g P []
  | place : g.Ready P i → (∀ j, g.Ready P j → g.label i ≤ g.label j) →
      Greedy g (P ++ [i]) rest → Greedy g P (i :: rest)

@[simp] theorem ready_reverse : g.Ready P.reverse j ↔ g.Ready P j := by
  simp [Ready]

-- Each node once, the source of every edge before its target.
def Topological (g : Graph) (l : List Nat) : Prop :=
  l.Perm (List.range g.size) ∧ ∀ i j, g.Adj i j → Precedes l i j

theorem Topological.nodup (h : g.Topological l) : l.Nodup := h.left.nodup_iff.mpr List.nodup_range

theorem Topological.mem (h : g.Topological l) : j ∈ l ↔ j < g.size := by
  simp [h.left.mem_iff]

theorem Topological.transGen (h : g.Topological l) (hr : Relation.TransGen g.Adj i j) :
    Precedes l i j :=
  Precedes.of_transGen h.nodup h.right hr

theorem Topological.acyclic (h : g.Topological l) : g.Acyclic :=
  fun _ hr => (h.transGen hr).ne h.nodup rfl

theorem perm_range_of_length {l : List Nat} (hl : l.Nodup) (hlt : ∀ i ∈ l, i < n)
    (hlen : n ≤ l.length) : l.Perm (List.range n) := by
  have hs : l.Subperm (List.range n) := hl.subperm fun i hi => List.mem_range.mpr (hlt i hi)
  exact hs.perm_of_length_le (by simpa using hlen)

namespace Greedy

theorem nodup (h : g.Greedy P rest) (hP : P.Nodup) : (P ++ rest).Nodup := by
  induction h
  case stop => simpa using hP
  case place P i rest hr _ _ ih =>
    have hP' : (P ++ [i]).Nodup := List.nodup_append.mpr ⟨hP, List.nodup_singleton _,
      fun a ha b hb hab => hr.2.1 (by rw [List.mem_singleton.mp hb] at hab; exact hab ▸ ha)⟩
    simpa using ih hP'

theorem lt (h : g.Greedy P rest) : ∀ i ∈ rest, i < g.size := by
  induction h
  case stop => simp
  case place hr _ _ ih =>
    intro j hj
    rcases List.mem_cons.mp hj with rfl | hj
    · exact hr.1
    · exact ih j hj

theorem stuck (h : g.Greedy P rest) : ∀ j, ¬g.Ready (P ++ rest) j := by
  induction h
  case stop hs => simpa using hs
  case place ih => simpa using ih

theorem precedes (h : g.Greedy P rest) (ha : g.Adj i j) (hj : j ∈ rest) :
    Precedes (P ++ rest) i j := by
  induction h
  case stop => simp at hj
  case place P i' rest hr _ _ ih =>
    rcases List.mem_cons.mp hj with rfl | hj
    · exact ⟨P, j :: rest, rfl, hr.2.2 i ha, by simp⟩
    · simpa using ih hj

-- The greedy choice is the least label of any list that completes `P` topologically: the
-- first node of such a list is ready after `P`, so its label is no less than the chosen one.
theorem le_of_topological (hd : g.Distinct) (h : g.Greedy P rest) (ht : g.Topological (P ++ q)) :
    rest.map g.label ≤ q.map g.label := by
  induction h generalizing q
  case stop =>
    exact match q.map g.label with
      | [] => le_refl _
      | _ :: _ => le_of_lt List.Lex.nil
  case place P i rest hr hl _ ih =>
    cases q
    case nil =>
      exact absurd (ht.mem.mpr hr.1) (by simpa using hr.2.1)
    case cons x q =>
      have hnd := ht.nodup
      have hx : g.Ready P x := by
        refine ⟨ht.mem.mp (by simp), fun hxP => List.disjoint_of_nodup_append hnd hxP (by simp), ?_⟩
        intro k hk
        have ⟨l₁, l₂, he, hk₁, hx₂⟩ := ht.right k x hk
        -- `x` is the first node after `P`, so everything before it is in `P`
        rcases List.append_eq_append_iff.mp he with ⟨a', rfl, he'⟩ | ⟨c', rfl, he'⟩
        · cases a'
          case nil => simpa using hk₁
          case cons y a' =>
            simp only [List.cons_append, List.cons.injEq] at he'
            obtain ⟨rfl, rfl⟩ := he'
            have hxq : x ∉ a' ++ l₂ := (List.nodup_cons.mp (List.nodup_append.mp hnd).2.1).1
            exact absurd (List.mem_append_right _ hx₂) hxq
        · exact List.mem_append_left _ hk₁
      by_cases hix : i = x
      case pos =>
        subst hix
        exact List.cons_le_cons _ (ih (by simpa using ht))
      case neg =>
        have hle := hl x hx
        have hne : g.label i ≠ g.label x := fun he => hix (hd.label_inj hr.1 hx.1 he)
        exact le_of_lt (List.Lex.rel (Nat.lt_of_le_of_ne hle hne))

end Greedy

-- In an acyclic graph some node outside any set of placed nodes is ready: else each such node
-- has a predecessor outside, and the relation "reaches" has no least element on a finite set.
theorem exists_ready (hc : g.Closed) (ha : g.Acyclic) (hj : j < g.size) (hP : j ∉ P) :
    ∃ k, g.Ready P k := by
  let r : Fin g.size → Fin g.size → Prop := fun a b => Relation.TransGen g.Adj a b
  have : IsTrans (Fin g.size) r := ⟨fun _ _ _ h₁ h₂ => h₁.trans h₂⟩
  have : Std.Irrefl r := ⟨fun a => ha a⟩
  have wf := Finite.wellFounded_of_trans_of_irrefl r
  have ⟨k, hk, hmin⟩ := wf.has_min {k | k.val ∉ P} ⟨⟨j, hj⟩, hP⟩
  refine ⟨k, k.isLt, hk, fun i hi => ?_⟩
  by_contra hiP
  exact hmin ⟨i, hc.left hi⟩ hiP (.single hi)

theorem Greedy.complete (hc : g.Closed) (ha : g.Acyclic) (h : g.Greedy [] p) :
    ∀ j < g.size, j ∈ p := by
  intro j hj
  by_contra hp
  have ⟨k, hk⟩ := exists_ready hc ha hj hp
  exact h.stuck k (by simpa using hk)

theorem Greedy.topological (hc : g.Closed) (ha : g.Acyclic) (h : g.Greedy [] p) :
    g.Topological p := by
  have hnd : p.Nodup := by simpa using h.nodup List.nodup_nil
  refine ⟨perm_range_of_length hnd h.lt ?_, fun i j hij => by
    simpa using h.precedes hij (h.complete hc ha j (hc.right hij))⟩
  have hs : (List.range g.size).Subperm p :=
    List.nodup_range.subperm fun j hj => h.complete hc ha j (List.mem_range.mp hj)
  simpa using hs.length_le

-- The edges into `j` from nodes outside `P`: what `place` keeps in `left` for a node not yet
-- placed.
def pending (g : Graph) (P : List Nat) (j : Nat) : Nat :=
  g.edges.toList.countP fun e => e.2 == j && !P.contains e.1

theorem pending_eq_zero : g.pending P j = 0 ↔ ∀ i, g.Adj i j → i ∈ P := by
  simp only [pending, List.countP_eq_zero, Adj]
  constructor
  · intro h i hi
    simpa using h _ hi
  · intro h e he
    simpa using fun hj => h e.1 (by simpa [← hj] using he)

theorem pending_cons (hi : i ∉ P) :
    g.pending (i :: P) j + g.edges.toList.count (i, j) = g.pending P j := by
  simp only [pending, List.count_eq_countP]
  induction g.edges.toList
  case nil => rfl
  case cons e es ih =>
    obtain ⟨a, b⟩ := e
    by_cases hb : b = j <;> by_cases ha : a = i <;> by_cases haP : a ∈ P <;>
      simp_all <;> omega

-- A map from labels holding each node of `S` under its label: inserting a node under its own
-- label adds it, labels being distinct.
theorem getElem?_insert_label (hd : g.Distinct) {m : Std.TreeMap Nat Nat} {S : Nat → Prop}
    (hS : ∀ k, S k → k < g.size) (hm : ∀ l k, m[l]? = some k ↔ S k ∧ g.label k = l)
    (hy : y < g.size) (l k : Nat) :
    (m.insert (g.label y) y)[l]? = some k ↔ (S k ∨ k = y) ∧ g.label k = l := by
  simp only [Std.TreeMap.getElem?_insert, compare_eq_iff_eq]
  by_cases hl : g.label y = l
  case pos =>
    subst hl
    simp only [if_true, Option.some.injEq]
    constructor
    · rintro rfl
      exact ⟨.inr rfl, rfl⟩
    · rintro ⟨hk, hkl⟩
      exact (hd.label_inj (hk.elim (hS k) (· ▸ hy)) hy hkl).symm
  case neg =>
    rw [if_neg hl, hm]
    exact ⟨fun hk => ⟨.inl hk.1, hk.2⟩,
      fun hk => ⟨hk.1.resolve_right fun hky => hl (hky ▸ hk.2), hk.2⟩⟩

-- What `place` keeps between two placements: `acc` holds the placed nodes, newest first,
-- `left` counts for each other node its edges from nodes not placed, and `ready` holds, by
-- label, the nodes not placed whose count is zero.
structure KahnState (g : Graph) (ready : Std.TreeMap Nat Nat) (left : Array Nat)
    (acc : List Nat) : Prop where
  nodup : acc.Nodup
  lt : ∀ i ∈ acc, i < g.size
  closed : ∀ i j, g.Adj i j → j ∈ acc → i ∈ acc
  size : left.size = g.size
  left : ∀ j < g.size, j ∉ acc → left[j]? = some (g.pending acc j)
  ready : ∀ l k, ready[l]? = some k ↔ k < g.size ∧ k ∉ acc ∧ g.pending acc k = 0 ∧ g.label k = l

-- Midway through releasing the successors of a newly placed node, `ys` holds the edges still
-- to take off.
structure Releasing (g : Graph) (P ys : List Nat) (st : Std.TreeMap Nat Nat × Array Nat) :
    Prop where
  size : st.2.size = g.size
  left : ∀ j < g.size, j ∉ P → st.2[j]? = some (g.pending P j + ys.count j)
  ready : ∀ l k, st.1[l]? = some k ↔
    k < g.size ∧ k ∉ P ∧ g.pending P k + ys.count k = 0 ∧ g.label k = l
  fresh : ∀ j ∈ ys, j < g.size ∧ j ∉ P

theorem Releasing.release (hd : g.Distinct) (h : g.Releasing P (y :: ys) st) :
    g.Releasing P ys (g.release st y) := by
  obtain ⟨ready, left⟩ := st
  have ⟨hy, hyP⟩ := h.fresh y (List.mem_cons_self ..)
  have hly : left[y]? = some (g.pending P y + ys.count y + 1) := by
    simpa [Nat.add_assoc] using h.left y hy hyP
  have hcount : ∀ k, k ≠ y → (y :: ys).count k = ys.count k := fun k hk =>
    by simp [Ne.symm hk]
  refine ⟨by simpa [Graph.release] using h.size, ?_, ?_, fun j hj => h.fresh j (by simp [hj])⟩
  case refine_1 =>
    intro j hj hjP
    by_cases hjy : j = y
    case pos =>
      subst hjy
      simp [Graph.release, hly, Array.getElem?_setIfInBounds_self_of_lt (h.size ▸ hj)]
    case neg =>
      simp [Graph.release, hly, Ne.symm hjy, h.left j hj hjP, hcount j hjy]
  case refine_2 =>
    intro l k
    have hold : ∀ l k, ready[l]? = some k ↔
        (k < g.size ∧ k ∉ P ∧ g.pending P k + (y :: ys).count k = 0) ∧ g.label k = l :=
      fun l k => by simpa only [and_assoc] using h.ready l k
    -- a node other than `y` keeps its count, and `y`, with an edge still to take off, was not
    -- ready
    have hother : ∀ k, (k < g.size ∧ k ∉ P ∧ g.pending P k + (y :: ys).count k = 0) ↔
        k ≠ y ∧ k < g.size ∧ k ∉ P ∧ g.pending P k + ys.count k = 0 := by
      intro k
      by_cases hky : k = y
      · subst hky
        simp
      · simp [hky, hcount k hky]
    by_cases hz : g.pending P y + ys.count y = 0
    case pos =>
      -- the last edge into `y` is taken off: `y` becomes ready
      have hr : (g.release (ready, left) y).1 = ready.insert (g.label y) y := by
        simp [Graph.release, hly, hz]
      rw [hr, getElem?_insert_label hd (fun k hk => hk.1) hold hy, hother]
      constructor
      · rintro ⟨⟨-, hk⟩ | rfl, hkl⟩
        · exact ⟨hk.1, hk.2.1, hk.2.2, hkl⟩
        · exact ⟨hy, hyP, hz, hkl⟩
      · rintro ⟨hk, hkP, hkz, hkl⟩
        by_cases hky : k = y
        · exact ⟨.inr hky, hkl⟩
        · exact ⟨.inl ⟨hky, hk, hkP, hkz⟩, hkl⟩
    case neg =>
      -- `y` still has edges into it: nothing becomes ready
      have hr : (g.release (ready, left) y).1 = ready := by
        simp only [Graph.release, hly, Option.getD_some]
        rw [if_neg (by simpa using hz)]
      rw [hr, hold, hother]
      constructor
      · rintro ⟨⟨-, hk⟩, hkl⟩
        exact ⟨hk.1, hk.2.1, hk.2.2, hkl⟩
      · rintro ⟨hk, hkP, hkz, hkl⟩
        exact ⟨⟨fun hky => hz (hky ▸ hkz), hk, hkP, hkz⟩, hkl⟩

theorem Releasing.foldl (hd : g.Distinct) (h : g.Releasing P ys st) :
    g.Releasing P [] (ys.foldl g.release st) := by
  induction ys generalizing st
  case nil => exact h
  case cons y ys ih => exact ih (h.release hd)

namespace KahnState

variable {ready : Std.TreeMap Nat Nat} {left : Array Nat} {acc : List Nat}

theorem ready_iff (hk : g.KahnState ready left acc) (hj : j < g.size) :
    ready[g.label j]? = some j ↔ g.Ready acc j := by
  rw [hk.ready, Ready, ← pending_eq_zero]
  simp [hj]

-- Placing the ready node `i`: its outgoing edges are the successors still to release, and
-- none of them is placed or is `i` itself.
theorem releasing (hc : g.Closed) (hd : g.Distinct) (hs : g.OutNeighbours succ)
    (hk : g.KahnState ready left acc) (hi : ready[g.label i]? = some i) :
    g.Releasing (i :: acc) (succ[i]?.getD []) (ready.erase (g.label i), left) := by
  obtain ⟨hilt, hiacc, hiz, -⟩ := (hk.ready _ _).mp hi
  have hpre := pending_eq_zero.mp hiz
  refine ⟨hk.size, ?_, ?_, ?_⟩
  case refine_1 =>
    intro j hj hji
    simp only [List.mem_cons, not_or] at hji
    rw [hk.left j hj hji.2, hs i hilt j, pending_cons hiacc]
  case refine_2 =>
    intro l k
    simp only [Std.TreeMap.getElem?_erase, compare_eq_iff_eq]
    by_cases hl : g.label i = l
    case pos =>
      subst hl
      simp only [if_true, reduceCtorEq, false_iff]
      rintro ⟨hk', hki, -, hkl⟩
      exact hki (List.mem_cons.mpr (.inl (hd.label_inj hk' hilt hkl)))
    case neg =>
      rw [if_neg hl, hk.ready]
      have hki : ∀ k, g.label k = l → k ≠ i := fun k hkl hki => hl (hki ▸ hkl)
      constructor
      · rintro ⟨hk', hkacc, hkz, rfl⟩
        refine ⟨hk', by simp [hki k rfl, hkacc], ?_, rfl⟩
        rw [hs i hilt k, pending_cons hiacc, hkz]
      · rintro ⟨hk', hkacc, hkz, rfl⟩
        simp only [List.mem_cons, not_or] at hkacc
        refine ⟨hk', hkacc.2, ?_, rfl⟩
        rw [← pending_cons hiacc, ← hs i hilt k]
        exact hkz
  case refine_3 =>
    intro j hj
    have hij := (hs.mem hilt).mp hj
    refine ⟨hc.right hij, ?_⟩
    simp only [List.mem_cons, not_or]
    constructor
    · rintro rfl
      exact hiacc (hpre _ hij)
    · exact fun hjacc => hiacc (hk.closed i j hij hjacc)

-- Placing the ready node `i` keeps the placed nodes distinct nodes of the graph, and every
-- source of an edge into them placed: the sources of `i`'s edges are placed already.
theorem placed_cons (hk : g.KahnState ready left acc) (hi : ready[g.label i]? = some i) :
    (i :: acc).Nodup ∧ (∀ j ∈ i :: acc, j < g.size) ∧
      ∀ a b, g.Adj a b → b ∈ i :: acc → a ∈ i :: acc := by
  obtain ⟨hilt, hiacc, hiz, -⟩ := (hk.ready _ _).mp hi
  refine ⟨List.nodup_cons.mpr ⟨hiacc, hk.nodup⟩, ?_, ?_⟩
  case refine_1 =>
    intro j hj
    rcases List.mem_cons.mp hj with rfl | hj
    · exact hilt
    · exact hk.lt j hj
  case refine_2 =>
    intro a b hab hb
    rcases List.mem_cons.mp hb with rfl | hb
    · exact List.mem_cons_of_mem _ (pending_eq_zero.mp hiz a hab)
    · exact List.mem_cons_of_mem _ (hk.closed a b hab hb)

theorem of_releasing (hk : g.KahnState ready left acc) (hi : ready[g.label i]? = some i)
    (hr : g.Releasing (i :: acc) [] st) : g.KahnState st.1 st.2 (i :: acc) := by
  obtain ⟨hnodup, hlt, hclosed⟩ := hk.placed_cons hi
  exact ⟨hnodup, hlt, hclosed, hr.size, by simpa using hr.left, by simpa using hr.ready⟩

end KahnState

theorem place_greedy (hc : g.Closed) (hd : g.Distinct) (hs : g.OutNeighbours succ)
    (hk : g.KahnState ready left acc) (hfuel : fuel + acc.length = g.size) :
    ∃ rest, g.place succ fuel ready left acc = acc.reverse ++ rest ∧
      g.Greedy acc.reverse rest := by
  induction fuel generalizing ready left acc
  case zero =>
    refine ⟨[], by simp [place], .stop fun j hj => hj.2.1 ?_⟩
    have hp := perm_range_of_length hk.nodup hk.lt (by omega)
    simpa using hp.mem_iff.mpr (List.mem_range.mpr hj.1)
  case succ fuel ih =>
    rw [place]
    split
    case h_1 hnone =>
      refine ⟨[], by simp, .stop fun j hj => ?_⟩
      have hj' := (hk.ready_iff hj.1).mpr (by simpa using hj)
      rw [Std.TreeMap.minKey?_eq_none_iff, Std.TreeMap.isEmpty_iff_forall_not_mem] at hnone
      exact hnone (g.label j) (Std.TreeMap.mem_iff_isSome_getElem?.mpr (by simp [hj']))
    case h_2 l hl =>
      have ⟨hlmem, hlmin⟩ := Std.TreeMap.minKey?_eq_some_iff_mem_and_forall.mp hl
      have ⟨i, hi⟩ := Option.isSome_iff_exists.mp (Std.TreeMap.mem_iff_isSome_getElem?.mp hlmem)
      obtain ⟨hilt, -, -, rfl⟩ := (hk.ready _ _).mp hi
      have hget : ready.getD (g.label i) 0 = i := by simp [Std.TreeMap.getD_eq_getD_getElem?, hi]
      simp only [hget]
      have hr := (hk.releasing hc hd hs hi).foldl hd
      have ⟨rest, he, hg⟩ := ih (hk.of_releasing hi hr) (by simp; omega)
      refine ⟨i :: rest, by simpa using he, .place ?_ ?_ (by simpa using hg)⟩
      · simpa using (hk.ready_iff hilt).mp hi
      · intro j hj
        have hj' := (hk.ready_iff hj.1).mpr (by simpa using hj)
        have := hlmin (g.label j) (Std.TreeMap.mem_iff_isSome_getElem?.mpr (by simp [hj']))
        simpa [Nat.isLE_compare] using this

theorem initialReady_getElem? (hd : g.Distinct) (hdeg : g.InDegreeCounts deg) :
    (g.initialReady deg)[l]? = some k ↔
      k < g.size ∧ g.pending [] k = 0 ∧ g.label k = l := by
  -- the fold inserts the nodes below `n` whose count is zero
  suffices ∀ n ≤ g.size, ∀ l k, ((List.range n).foldl (fun ready i =>
      if deg[i]?.getD 1 == 0 then ready.insert (g.label i) i else ready)
      (∅ : Std.TreeMap Nat Nat))[l]? = some k ↔
      k < n ∧ g.pending [] k = 0 ∧ g.label k = l from this g.size le_rfl l k
  intro n hn
  induction n
  case zero => simp
  case succ n ih =>
    intro l k
    rw [List.range_succ, List.foldl_append, List.foldl_cons, List.foldl_nil]
    have hn : deg[n]?.getD 1 = g.pending [] n := by
      simp [hdeg.getElem? n (by omega), pending]
    rw [hn]
    by_cases hz : g.pending [] n = 0
    case pos =>
      -- `n` is ready: the fold inserts it
      simp only [hz, beq_self_eq_true, if_true]
      rw [getElem?_insert_label hd (S := fun k => k < n ∧ g.pending [] k = 0) (fun k hk => by omega)
        (fun l k => (ih (by omega) l k).trans and_assoc.symm) (by omega)]
      constructor
      · rintro ⟨⟨hk, hkz⟩ | rfl, hkl⟩
        · exact ⟨by omega, hkz, hkl⟩
        · exact ⟨by omega, hz, hkl⟩
      · rintro ⟨hk, hkz, hkl⟩
        rcases Nat.lt_succ_iff_lt_or_eq.mp hk with hk | rfl
        · exact ⟨.inl ⟨hk, hkz⟩, hkl⟩
        · exact ⟨.inr rfl, hkl⟩
    case neg =>
      have : (g.pending [] n == 0) = false := by simpa using hz
      rw [this, if_neg (by simp), ih (by omega)]
      constructor
      · rintro ⟨hk, hkz, rfl⟩
        exact ⟨by omega, hkz, rfl⟩
      · rintro ⟨hk, hkz, rfl⟩
        refine ⟨?_, hkz, rfl⟩
        by_contra hkn
        exact hz (by rw [show n = k by omega]; exact hkz)

theorem kahnState_initial (hd : g.Distinct) (hdeg : g.InDegreeCounts deg) :
    g.KahnState (g.initialReady deg) deg [] := by
  refine ⟨List.nodup_nil, by simp, by simp, hdeg.size, ?_, ?_⟩
  case refine_1 =>
    intro j hj _
    simp [hdeg.getElem? j hj, pending]
  case refine_2 =>
    intro l k
    simp [initialReady_getElem? hd hdeg]

section Lists

variable (hc : g.Closed) (hd : g.Distinct) (hs : g.OutNeighbours succ) (hdeg : g.InDegreeCounts deg)
include hc hd hs hdeg

theorem placementWith_greedy : g.Greedy [] (g.placementWith succ deg) := by
  have ⟨rest, he, hg⟩ := place_greedy hc hd hs (kahnState_initial hd hdeg)
    (show g.size + ([] : List Nat).length = g.size by simp)
  rw [placementWith, he]
  simpa using hg

theorem placementWith_length_eq_iff : (g.placementWith succ deg).length = g.size ↔ g.Acyclic := by
  have hg := placementWith_greedy hc hd hs hdeg
  have hnd : (g.placementWith succ deg).Nodup := by simpa using hg.nodup List.nodup_nil
  constructor
  · intro hlen
    have hp := perm_range_of_length hnd hg.lt hlen.ge
    refine Topological.acyclic ⟨hp, fun i j hij => ?_⟩
    simpa using hg.precedes hij (hp.mem_iff.mpr (List.mem_range.mpr (hc.right hij)))
  · intro ha
    simpa using (hg.topological hc ha).left.length_eq

theorem topological_placementWith (ha : g.Acyclic) : g.Topological (g.placementWith succ deg) :=
  (placementWith_greedy hc hd hs hdeg).topological hc ha

theorem placementWith_le (ht : g.Topological q) :
    (g.placementWith succ deg).map g.label ≤ q.map g.label :=
  (placementWith_greedy hc hd hs hdeg).le_of_topological hd (by simpa using ht)

theorem orderWith_eq_ok_iff :
    g.orderWith succ deg comps = .ok o ↔ g.Acyclic ∧ o = (g.placementWith succ deg).map g.label := by
  rw [← placementWith_length_eq_iff hc hd hs hdeg, orderWith]
  split
  case isTrue h => simp [h, eq_comm]
  case isFalse h => simp [h]

theorem orderWith_eq_error_iff :
    g.orderWith succ deg comps = .error cs ↔ ¬g.Acyclic ∧ cs = g.cyclesOf comps := by
  rw [← placementWith_length_eq_iff hc hd hs hdeg, orderWith]
  split
  case isTrue h => simp [h]
  case isFalse h => simp [h, eq_comm]

end Lists

-- The graph's own lists.

theorem placement_greedy (hc : g.Closed) (hd : g.Distinct) : g.Greedy [] g.placement :=
  placementWith_greedy hc hd successors_spec inDegrees_spec

theorem topological_placement (hc : g.Closed) (hd : g.Distinct) (ha : g.Acyclic) :
    g.Topological g.placement :=
  topological_placementWith hc hd successors_spec inDegrees_spec ha

theorem placement_le (hc : g.Closed) (hd : g.Distinct) (ht : g.Topological q) :
    g.placement.map g.label ≤ q.map g.label :=
  placementWith_le hc hd successors_spec inDegrees_spec ht

theorem order_eq_ok_iff (hc : g.Closed) (hd : g.Distinct) :
    g.order = .ok o ↔ g.Acyclic ∧ o = g.placement.map g.label :=
  orderWith_eq_ok_iff hc hd successors_spec inDegrees_spec

theorem order_eq_error_iff (hc : g.Closed) (hd : g.Distinct) :
    g.order = .error cs ↔ ¬g.Acyclic ∧ cs = g.cycles :=
  orderWith_eq_error_iff hc hd successors_spec inDegrees_spec

end Graph

end ContractDeploy
