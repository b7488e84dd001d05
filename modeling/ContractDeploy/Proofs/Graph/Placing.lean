import ContractDeploy.Proofs.Graph.Built

namespace ContractDeploy

namespace Graph

-- `PlacingWith g succ deg st acc ys es`: from its start at the counts `deg`, the placement loop
-- over the edge targets `succ` reaches the ready map and counts `st`, with the nodes `acc` placed
-- (the newest first), the targets `ys` of the edges of the node placed last still to take off,
-- and the nodes `es` that have become ready, in the order they did.
inductive PlacingWith (g : Graph) (succ : Array (List Nat)) (deg : Array Nat) :
    Std.TreeMap Nat Nat × Array Nat → List Nat → List Nat → List Nat → Prop
  | start : PlacingWith g succ deg (g.initialReady deg, deg) [] []
      ((List.range g.size).filter fun i => deg[i]?.getD 1 == 0)
  | take : PlacingWith g succ deg st acc [] es → st.1.minKey? = some l →
      PlacingWith g succ deg (st.1.erase l, st.2) (st.1.getD l 0 :: acc)
        (succ[st.1.getD l 0]?.getD []) es
  | release : PlacingWith g succ deg st acc (j :: ys) es →
      PlacingWith g succ deg (g.release st j) acc ys
        (if st.2[j]?.getD 0 == 1 then es ++ [j] else es)

abbrev Placing (g : Graph) := g.PlacingWith g.successors g.inDegrees

variable {g : Graph} {succ : Array (List Nat)} {deg : Array Nat}
  {st : Std.TreeMap Nat Nat × Array Nat} {acc ys es : List Nat} {j l : Nat}

-- What holds between any two steps: the counts and the ready map as `Releasing` has them, the
-- placed nodes distinct nodes of the graph whose sources are placed, and a node has become ready,
-- once, exactly when no edge into it is left to take off.
structure Counting (g : Graph) (st : Std.TreeMap Nat Nat × Array Nat) (acc ys es : List Nat) :
    Prop where
  releasing : g.Releasing acc ys st
  nodup : acc.Nodup
  lt : ∀ i ∈ acc, i < g.size
  closed : ∀ i j, g.Adj i j → j ∈ acc → i ∈ acc
  entered : ∀ k, k ∈ es ↔ k < g.size ∧ g.pending acc k + ys.count k = 0
  entered_nodup : es.Nodup

theorem exists_getElem?_of_minKey? {m : Std.TreeMap Nat Nat} (h : m.minKey? = some l) :
    ∃ i, m[l]? = some i :=
  Option.isSome_iff_exists.mp (Std.TreeMap.mem_iff_isSome_getElem?.mp
    (Std.TreeMap.minKey?_eq_some_iff_mem_and_forall.mp h).1)

namespace Counting

theorem kahnState (h : g.Counting st acc [] es) : g.KahnState st.1 st.2 acc :=
  ⟨h.nodup, h.lt, h.closed, h.releasing.size, by simpa using h.releasing.left,
    by simpa using h.releasing.ready⟩

theorem getElem?_left (h : g.Counting st acc (j :: ys) es) :
    st.2[j]? = some (g.pending acc j + ys.count j + 1) := by
  obtain ⟨hj, hjacc⟩ := h.releasing.fresh j List.mem_cons_self
  simpa [Nat.add_assoc] using h.releasing.left j hj hjacc

theorem length_le (h : g.Counting st acc ys es) : acc.length ≤ g.size := by
  have hs : acc.Subperm (List.range g.size) :=
    h.nodup.subperm fun i hi => List.mem_range.mpr (h.lt i hi)
  simpa using hs.length_le

theorem label_nodup (hd : g.Distinct) (h : g.Counting st acc ys es) :
    (acc.reverse.map g.label).Nodup :=
  (List.nodup_reverse.mpr h.nodup).map_on fun a ha b hb he =>
    hd.label_inj (h.lt a (List.mem_reverse.mp ha)) (h.lt b (List.mem_reverse.mp hb)) he

-- Taking the ready node of least label: it is placed, and its edges are the ones to take off;
-- no count changes, so no node becomes ready.
theorem take (hc : g.Closed) (hd : g.Distinct) (hs : g.OutNeighbours succ)
    (h : g.Counting st acc [] es) (hl : st.1.minKey? = some l) :
    g.Counting (st.1.erase l, st.2) (st.1.getD l 0 :: acc) (succ[st.1.getD l 0]?.getD []) es := by
  have hk := h.kahnState
  obtain ⟨i, hi⟩ := exists_getElem?_of_minKey? hl
  obtain ⟨hilt, hiacc, -, rfl⟩ := (hk.ready _ _).mp hi
  have hget : st.1.getD (g.label i) 0 = i := by simp [Std.TreeMap.getD_eq_getD_getElem?, hi]
  rw [hget]
  obtain ⟨hnodup, hlt, hclosed⟩ := hk.placed_cons hi
  refine ⟨hk.releasing hc hd hs hi, hnodup, hlt, hclosed, fun k => ?_, h.entered_nodup⟩
  rw [h.entered k, hs i hilt k, pending_cons hiacc, List.count_nil, Nat.add_zero]

-- Taking one edge off the count of `j`: `j` becomes ready when the count was one, that is when
-- this was the last edge into it; it was not ready before, its count being at least one.
theorem release (hd : g.Distinct) (h : g.Counting st acc (j :: ys) es) :
    g.Counting (g.release st j) acc ys
      (if st.2[j]?.getD 0 == 1 then es ++ [j] else es) := by
  have hj := (h.releasing.fresh j List.mem_cons_self).1
  have hcount : ∀ k, k ≠ j → (j :: ys).count k = ys.count k := fun k hk => by
    simp [Ne.symm hk]
  have hjes : j ∉ es := fun hjes => by
    have := ((h.entered j).mp hjes).2
    simp at this
  have hentered : ∀ k, k ≠ j → (k ∈ es ↔ k < g.size ∧ g.pending acc k + ys.count k = 0) :=
    fun k hk => by rw [h.entered k, hcount k hk]
  refine ⟨h.releasing.release hd, h.nodup, h.lt, h.closed, fun k => ?_, ?_⟩
  case refine_1 =>
    rw [h.getElem?_left, Option.getD_some]
    by_cases hz : g.pending acc j + ys.count j = 0
    case pos =>
      rw [show (g.pending acc j + ys.count j + 1 == 1) = true by simp [hz], if_pos rfl,
        List.mem_append, List.mem_singleton]
      by_cases hkj : k = j
      · subst hkj
        exact ⟨fun _ => ⟨hj, hz⟩, fun _ => .inr rfl⟩
      · simp [hkj, hentered k hkj]
    case neg =>
      rw [show (g.pending acc j + ys.count j + 1 == 1) = false by simpa using hz]
      simp only [Bool.false_eq_true, if_false]
      by_cases hkj : k = j
      · subst hkj
        exact ⟨fun hk => absurd hk hjes, fun hk => absurd hk.2 hz⟩
      · exact hentered k hkj
  case refine_2 =>
    split
    · exact List.nodup_append.mpr ⟨h.entered_nodup, List.nodup_singleton j,
        fun a ha b hb hab => hjes (by rw [List.mem_singleton.mp hb] at hab; exact hab ▸ ha)⟩
    · exact h.entered_nodup

end Counting

theorem counting_start (hd : g.Distinct) (hdeg : g.InDegreeCounts deg) :
    g.Counting (g.initialReady deg, deg) [] []
      ((List.range g.size).filter fun i => deg[i]?.getD 1 == 0) := by
  have hk := kahnState_initial hd hdeg
  refine ⟨⟨hk.size, by simpa using hk.left, by simpa using hk.ready, by simp⟩, List.nodup_nil,
    by simp, by simp, fun k => ?_, List.nodup_range.filter _⟩
  simp only [List.mem_filter, List.mem_range, List.count_nil, Nat.add_zero]
  constructor
  · rintro ⟨hk', hz⟩
    simp [hdeg.getElem? k hk'] at hz
    exact ⟨hk', by simpa [pending] using hz⟩
  · rintro ⟨hk', hz⟩
    exact ⟨hk', by simpa [hdeg.getElem? k hk', pending] using hz⟩

section Lists

variable (hc : g.Closed) (hd : g.Distinct) (hs : g.OutNeighbours succ) (hdeg : g.InDegreeCounts deg)
include hc hd hs hdeg

theorem PlacingWith.counting (h : g.PlacingWith succ deg st acc ys es) :
    g.Counting st acc ys es := by
  induction h with
  | start => exact counting_start hd hdeg
  | take _ hl ih => exact ih.take hc hd hs hl
  | release _ ih => exact ih.release hd

omit hc hd hs hdeg in
theorem PlacingWith.foldl_release (h : g.PlacingWith succ deg st acc ys es) :
    ∃ es', g.PlacingWith succ deg (ys.foldl g.release st) acc [] es' := by
  induction ys generalizing st es with
  | nil => exact ⟨es, h⟩
  | cons j ys ih => exact ih h.release

-- The run of `place` with fuel enough for every node not yet placed goes on until no node is
-- ready: each step with a ready node places one more node.
theorem PlacingWith.place (h : g.PlacingWith succ deg st acc [] es) (fuel : Nat)
    (hfuel : g.size ≤ acc.length + fuel) :
    ∃ st' acc' es', g.PlacingWith succ deg st' acc' [] es' ∧ st'.1.minKey? = none ∧
      g.place succ fuel st.1 st.2 acc = acc'.reverse := by
  induction fuel generalizing st acc es with
  | zero =>
    -- every node is placed, so none is ready
    refine ⟨st, acc, es, h, ?_, by simp [Graph.place]⟩
    have hk := (h.counting hc hd hs hdeg).kahnState
    have hp := perm_range_of_length hk.nodup hk.lt (by omega)
    cases hm : st.1.minKey? with
    | none => rfl
    | some l =>
      obtain ⟨k, hkl⟩ := exists_getElem?_of_minKey? hm
      obtain ⟨hklt, hkacc, -⟩ := (hk.ready _ _).mp hkl
      exact absurd (hp.mem_iff.mpr (List.mem_range.mpr hklt)) hkacc
  | succ fuel ih =>
    rw [Graph.place]
    split
    case h_1 hnone => exact ⟨st, acc, es, h, hnone, rfl⟩
    case h_2 l hl =>
      obtain ⟨es', hrel⟩ := (h.take hl).foldl_release
      obtain ⟨st', acc', es'', hrun, hend, hplace⟩ :=
        ih hrel (by simp only [List.length_cons]; omega)
      refine ⟨st', acc', es'', hrun, hend, ?_⟩
      rw [← hplace]

theorem placementWith_placing :
    ∃ st es, g.PlacingWith succ deg st (g.placementWith succ deg).reverse [] es ∧
      st.1.minKey? = none := by
  obtain ⟨st, acc, es, hrun, hend, hplace⟩ := PlacingWith.start.place hc hd hs hdeg g.size (by simp)
  refine ⟨st, es, ?_, hend⟩
  rw [placementWith, hplace, List.reverse_reverse]
  exact hrun

end Lists

-- Along every run of the placement loop over a graph the calls build, parallel edges and loops
-- included, with the targets of each node's edges and the counts of edges into each node as the
-- graph library gives them: an edge is taken off a count of at least one; no node becomes ready
-- twice; at most as many nodes as the graph has are placed, no label twice; and the placement is
-- the run that goes on until no node is ready, its labels distinct.
theorem placingWith_counts (hb : g.Built) (hs : g.OutNeighbours succ)
    (hdeg : g.InDegreeCounts deg) :
    (∀ st acc j ys es, g.PlacingWith succ deg st acc (j :: ys) es → ∃ d, st.2[j]? = some (d + 1)) ∧
    (∀ st acc ys es, g.PlacingWith succ deg st acc ys es →
      es.Nodup ∧ acc.length ≤ g.size ∧ (acc.reverse.map g.label).Nodup) ∧
    (∃ st es, g.PlacingWith succ deg st (g.placementWith succ deg).reverse [] es ∧
      st.1.minKey? = none) ∧
    ((g.placementWith succ deg).map g.label).Nodup := by
  have ⟨hd, hc, _⟩ := hb.indexed
  obtain ⟨st, es, hrun, hend⟩ := placementWith_placing hc hd hs hdeg
  refine ⟨fun st acc j ys es h => ⟨_, (h.counting hc hd hs hdeg).getElem?_left⟩,
    fun st acc ys es h => ?_, ⟨st, es, hrun, hend⟩, ?_⟩
  · have hcount := h.counting hc hd hs hdeg
    exact ⟨hcount.entered_nodup, hcount.length_le, hcount.label_nodup hd⟩
  · simpa using (hrun.counting hc hd hs hdeg).label_nodup hd

-- The same along the loop over the graph's own lists.
theorem placing_counts (hb : g.Built) :
    (∀ st acc j ys es, g.Placing st acc (j :: ys) es → ∃ d, st.2[j]? = some (d + 1)) ∧
    (∀ st acc ys es, g.Placing st acc ys es →
      es.Nodup ∧ acc.length ≤ g.size ∧ (acc.reverse.map g.label).Nodup) ∧
    (∃ st es, g.Placing st g.placement.reverse [] es ∧ st.1.minKey? = none) ∧
    (g.placement.map g.label).Nodup :=
  placingWith_counts hb successors_spec inDegrees_spec

-- Nodes `1` and `2` with two edges between them, and node `3` with a loop.
def parallelLoop : Graph := ((empty.addEdge 1 2).addEdge 1 2).addEdge 3 3

theorem placing_counts_parallelLoop :
    parallelLoop.Built ∧
      (∀ st acc j ys es, parallelLoop.Placing st acc (j :: ys) es → ∃ d, st.2[j]? = some (d + 1)) ∧
      (∀ st acc ys es, parallelLoop.Placing st acc ys es →
        es.Nodup ∧ acc.length ≤ parallelLoop.size ∧ (acc.reverse.map parallelLoop.label).Nodup) ∧
      (∃ st es, parallelLoop.Placing st parallelLoop.placement.reverse [] es ∧
        st.1.minKey? = none) ∧
      (parallelLoop.placement.map parallelLoop.label).Nodup :=
  have hb : parallelLoop.Built := .addEdge 3 3 (.addEdge 1 2 (.addEdge 1 2 .empty))
  ⟨hb, placing_counts hb⟩

end Graph

end ContractDeploy
