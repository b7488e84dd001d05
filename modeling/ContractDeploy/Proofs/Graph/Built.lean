import ContractDeploy.Proofs.Graph.Cycles
import ContractDeploy.Proofs.Graph.Order

namespace ContractDeploy

theorem Precedes.map {l : List Nat} (h : Precedes l a b) (f : Nat → Nat) :
    Precedes (l.map f) (f a) (f b) := by
  obtain ⟨l₁, l₂, rfl, ha, hb⟩ := h
  exact ⟨l₁.map f, l₂.map f, List.map_append, List.mem_map_of_mem ha, List.mem_map_of_mem hb⟩

namespace Graph

open Relation

variable {g : Graph} {l a b : Nat}

-- The graphs that adding nodes and edges builds from the empty graph.
inductive Built : Graph → Prop
  | empty : Built empty
  | addNode {g : Graph} (l : Nat) : Built g → Built (g.addNode l).1
  | addEdge {g : Graph} (a b : Nat) : Built g → Built (g.addEdge a b)

-- What every built graph keeps: distinct labels, an index that finds the node of each label,
-- and edges between its nodes.
structure Indexed (g : Graph) : Prop where
  distinct : g.Distinct
  closed : g.Closed
  nodeOf : ∀ l i, g.nodeOf[l]? = some i ↔ i < g.size ∧ g.label i = l

theorem indexed_empty : empty.Indexed :=
  ⟨List.nodup_nil, fun e he => by simp [empty] at he, fun l i => by simp [empty, size]⟩

private theorem label_push (hi : i < g.labels.size) :
    (⟨g.labels.push l, m, es⟩ : Graph).label i = g.label i := by
  simp [label, Array.getElem?_push, hi.ne]

private theorem label_push_size : (⟨g.labels.push l, m, es⟩ : Graph).label g.labels.size = l := by
  simp [label]

namespace Indexed

theorem label_lt_of_nodeOf (h : g.Indexed) (hl : g.nodeOf[l]? = some i) :
    i < g.size ∧ g.label i = l := (h.nodeOf l i).mp hl

theorem label_ne_of_nodeOf (h : g.Indexed) (hl : g.nodeOf[l]? = none) (hi : i < g.size) :
    g.label i ≠ l := fun he => by simp [(h.nodeOf l i).mpr ⟨hi, he⟩] at hl

theorem addNode (h : g.Indexed) : (g.addNode l).1.Indexed := by
  unfold Graph.addNode
  cases hl : g.indexOf? l with
  | some i => exact h
  | none =>
    have hlab : ∀ {i}, i < g.size → g.label i ≠ l := fun hi => h.label_ne_of_nodeOf hl hi
    refine ⟨?_, ?_, fun l' i => ?_⟩
    · -- the new label is the label of no node so far
      have hnot : l ∉ g.labels.toList := by
        intro hmem
        obtain ⟨i, hi, he⟩ := List.getElem_of_mem hmem
        have hi' : i < g.labels.size := by simpa using hi
        exact hlab hi' (by simp [label, Array.getElem?_eq_getElem hi', ← he])
      rw [Distinct, Array.toList_push]
      exact List.nodup_append.mpr ⟨h.distinct, List.nodup_singleton l,
        fun a ha b hb hab => hnot (by rw [List.mem_singleton.mp hb] at hab; exact hab ▸ ha)⟩
    · intro e he
      have := h.closed e he
      simp only [size, Array.size_push] at this ⊢
      omega
    · simp only [Std.TreeMap.getElem?_insert, compare_eq_iff_eq, size, Array.size_push]
      by_cases hll : l = l'
      · subst hll
        simp only [if_true, Option.some.injEq]
        constructor
        · rintro rfl
          exact ⟨by omega, label_push_size⟩
        · rintro ⟨hi, he⟩
          by_contra hne
          have hi' : i < g.labels.size := by omega
          exact hlab hi' (by rw [← label_push hi']; exact he)
      · rw [if_neg hll, h.nodeOf]
        constructor
        · rintro ⟨hi, he⟩
          exact ⟨by simp only [size] at hi; omega, by rw [label_push (by simpa [size] using hi)]; exact he⟩
        · rintro ⟨hi, he⟩
          have hi' : i < g.labels.size := by
            by_contra hge
            have : i = g.labels.size := by omega
            subst this
            exact hll (by rw [label_push_size] at he; exact he)
          exact ⟨hi', by rw [label_push hi'] at he; exact he⟩

theorem addNode_index (h : g.Indexed) :
    (g.addNode l).2 < (g.addNode l).1.size ∧ (g.addNode l).1.label (g.addNode l).2 = l := by
  have h' := h.addNode (l := l)
  unfold Graph.addNode at h' ⊢
  cases hl : g.indexOf? l with
  | some i => exact h.label_lt_of_nodeOf hl
  | none =>
    simp only [hl] at h' ⊢
    exact h'.label_lt_of_nodeOf (by simp)

end Indexed

theorem size_le_addNode : g.size ≤ (g.addNode l).1.size := by
  unfold addNode
  split <;> simp [size]

theorem Indexed.addEdge (h : g.Indexed) : (g.addEdge a b).Indexed := by
  have h₁ := h.addNode (l := a)
  have h₂ := h₁.addNode (l := b)
  have hi := (h.addNode_index (l := a)).1
  have hj := (h₁.addNode_index (l := b)).1
  have hle := size_le_addNode (g := (g.addNode a).1) (l := b)
  refine ⟨h₂.distinct, fun e he => ?_, h₂.nodeOf⟩
  -- the new edge runs between the two nodes just found, every other one was there before
  simp only [Graph.addEdge, Array.toList_push, List.mem_append, List.mem_singleton] at he
  rcases he with he | rfl
  · exact h₂.closed e he
  · exact ⟨Nat.lt_of_lt_of_le hi hle, hj⟩

theorem Built.indexed (hb : g.Built) : g.Indexed := by
  induction hb with
  | empty => exact indexed_empty
  | addNode l _ ih => exact ih.addNode
  | addEdge a b _ ih => exact ih.addEdge

-- Every label once, the label of an edge's source before that of its target.
def Schedule (g : Graph) (o : List Nat) : Prop :=
  o.Perm g.labels.toList ∧ ∀ i j, g.Adj i j → Precedes o (g.label i) (g.label j)

theorem map_label_range : (List.range g.size).map g.label = g.labels.toList := by
  refine List.ext_getElem (by simp [size]) fun i h₁ h₂ => ?_
  simp [label, Array.getElem?_eq_getElem (show i < g.labels.size by simpa [size] using h₂)]

theorem Topological.schedule (ht : g.Topological q) : g.Schedule (q.map g.label) :=
  ⟨map_label_range ▸ ht.left.map g.label, fun i j hij => (ht.right i j hij).map g.label⟩

-- Over distinct labels every schedule names the nodes of a topological order: the node of a
-- label is its place among the labels.
theorem Schedule.exists_topological (hc : g.Closed) (hd : g.Distinct) (hs : g.Schedule o) :
    ∃ q, g.Topological q ∧ o = q.map g.label := by
  let idx : Nat → Nat := fun l => g.labels.toList.idxOf l
  have hlt : ∀ l ∈ o, idx l < g.size := fun l hl => by
    simpa [size] using List.idxOf_lt_length_iff.mpr (hs.left.mem_iff.mp hl)
  have hlabel : ∀ l ∈ o, g.label (idx l) = l := fun l hl => by
    have h := List.getElem_idxOf (List.idxOf_lt_length_iff.mpr (hs.left.mem_iff.mp hl))
    simp only [label, Array.getElem?_eq_getElem (show idx l < g.labels.size by simpa [size] using hlt l hl),
      Option.getD_some]
    simpa only [Array.getElem_toList] using h
  have hidx : ∀ i < g.size, idx (g.label i) = i := fun i hi => by
    have hi' : i < g.labels.toList.length := by simpa [size] using hi
    have := hd.idxOf_getElem i hi'
    simpa [idx, label, Array.getElem?_eq_getElem (show i < g.labels.size by simpa [size] using hi)]
      using this
  have ho : (o.map idx).map g.label = o := by
    rw [List.map_map]
    exact (List.map_congr_left fun l hl => hlabel l hl).trans (List.map_id o)
  have hnd : (o.map idx).Nodup :=
    (hs.left.nodup_iff.mpr hd).map_on fun x hx y hy he => by rw [← hlabel x hx, ← hlabel y hy, he]
  refine ⟨o.map idx, ⟨perm_range_of_length hnd ?_ (by simpa [size] using hs.left.length_eq.ge),
    fun i j hij => ?_⟩, ho.symm⟩
  · intro i hi
    obtain ⟨l, hl, rfl⟩ := List.mem_map.mp hi
    exact hlt l hl
  · have := (hs.right i j hij).map idx
    rwa [hidx i (hc.left hij), hidx j (hc.right hij)] at this

section Lists

variable {succ : Array (List Nat)} {deg : Array Nat} {comps : List (List Nat)}

theorem orderWith_eq_ok_iff_schedule (hc : g.Closed) (hd : g.Distinct) (hs : g.OutNeighbours succ)
    (hdeg : g.InDegreeCounts deg) : g.orderWith succ deg comps = .ok o ↔
      g.Acyclic ∧ g.Schedule o ∧ ∀ o', g.Schedule o' → o ≤ o' := by
  have hleast : ∀ o', g.Schedule o' → (g.placementWith succ deg).map g.label ≤ o' :=
    fun o' hsch => by
      obtain ⟨q, hq, rfl⟩ := hsch.exists_topological hc hd
      exact placementWith_le hc hd hs hdeg hq
  have htop := topological_placementWith hc hd hs hdeg
  rw [orderWith_eq_ok_iff hc hd hs hdeg]
  constructor
  · rintro ⟨ha, rfl⟩
    exact ⟨ha, (htop ha).schedule, hleast⟩
  · rintro ⟨ha, hsch, hmin⟩
    exact ⟨ha, le_antisymm (hmin _ (htop ha).schedule) (hleast o hsch)⟩

theorem Distinct.disjoint_map_label (hd : g.Distinct) {c c' : List Nat}
    (hlt : ∀ u ∈ c ++ c', u < g.size) (hdj : c.Disjoint c') : (c.map g.label).Disjoint (c'.map g.label) := by
  intro x hx hx'
  obtain ⟨u, hu, rfl⟩ := List.mem_map.mp hx
  obtain ⟨u', hu', he⟩ := List.mem_map.mp hx'
  have huu : u' = u := hd.label_inj (hlt u' (by simp [hu'])) (hlt u (by simp [hu])) he
  exact hdj hu (huu ▸ hu')

-- The cycles in labels: each the labels of a strongly connected component on a cycle, with
-- each label once, no label in two, every node on a cycle in one, by their least labels.
theorem cyclesOf_labels (hc : g.Closed) (hd : g.Distinct) (hcomps : g.StrongComponents comps) :
    (g.cyclesOf comps).Pairwise List.Disjoint ∧
      (∀ c ∈ g.cyclesOf comps, c.Nodup ∧ ∃ a < g.size,
        (∀ x, x ∈ c ↔ ∃ u, Strong g.Adj a u ∧ g.label u = x) ∧ TransGen g.Adj a a) ∧
      (∀ a, TransGen g.Adj a a → ∃ c ∈ g.cyclesOf comps, g.label a ∈ c) ∧
      (g.cyclesOf comps).Pairwise fun c c' => ∃ x ∈ c, ∀ y ∈ c', x < y := by
  obtain ⟨ns, hns, hdisj, hcomp, hcov, hord⟩ := cyclesOf_spec hc hd hcomps
  rw [hns]
  refine ⟨List.pairwise_map.mpr (hdisj.imp_of_mem fun hc₁ hc₂ hdj => ?_), fun l hl => ?_,
    fun a ha => ?_, List.pairwise_map.mpr (hord.imp fun ⟨u, hu, hlt⟩ => ?_)⟩
  · exact hd.disjoint_map_label (fun u hu => (List.mem_append.mp hu).elim
      ((hcomp _ hc₁).2.1 u) ((hcomp _ hc₂).2.1 u)) hdj
  · obtain ⟨c, hcn, rfl⟩ := List.mem_map.mp hl
    obtain ⟨hnd, hlt, a, hca, haa⟩ := hcomp c hcn
    refine ⟨hnd.map_on fun u hu v hv he => hd.label_inj (hlt u hu) (hlt v hv) he, a,
      hc.transGen_left haa, fun x => ?_, haa⟩
    simp [hca]
  · obtain ⟨c, hcn, hac⟩ := hcov a ha
    exact ⟨_, List.mem_map_of_mem hcn, List.mem_map_of_mem hac⟩
  · refine ⟨g.label u, List.mem_map_of_mem hu, fun y hy => ?_⟩
    obtain ⟨u', hu', rfl⟩ := List.mem_map.mp hy
    exact hlt u' hu'

-- Over any graph the calls build, given its out-neighbours, in-degree counts and strongly
-- connected components as the graph library gives them, the order of the labels is found exactly
-- when there is no cycle, and is then the least schedule of the labels. Otherwise the answer is
-- the cycles: at least one, each the labels of a strongly connected component with more than one
-- node or a loop, every such component once, no label twice, ordered by their least labels.
theorem orderWith_least_or_cycles (hb : g.Built) (hs : g.OutNeighbours succ)
    (hdeg : g.InDegreeCounts deg) (hcomps : g.StrongComponents comps) :
    ((∃ o, g.orderWith succ deg comps = .ok o) ↔ g.Acyclic) ∧
      (∀ o, g.orderWith succ deg comps = .ok o ↔
        g.Acyclic ∧ g.Schedule o ∧ ∀ o', g.Schedule o' → o ≤ o') ∧
      ∀ cs, g.orderWith succ deg comps = .error cs → cs ≠ [] ∧ cs.Pairwise List.Disjoint ∧
        (∀ c ∈ cs, c.Nodup ∧ ∃ a < g.size,
          (∀ x, x ∈ c ↔ ∃ u, Strong g.Adj a u ∧ g.label u = x) ∧
          ((∃ b ≠ a, Strong g.Adj a b) ∨ g.Adj a a)) ∧
        (∀ a, (∃ b ≠ a, Strong g.Adj a b) ∨ g.Adj a a → ∃ c ∈ cs, g.label a ∈ c) ∧
        cs.Pairwise fun c c' => ∃ x ∈ c, ∀ y ∈ c', x < y := by
  have ⟨hd, hc, _⟩ := hb.indexed
  refine ⟨⟨fun ⟨o, ho⟩ => ((orderWith_eq_ok_iff hc hd hs hdeg).mp ho).1,
    fun ha => ⟨_, (orderWith_eq_ok_iff hc hd hs hdeg).mpr ⟨ha, rfl⟩⟩⟩,
    fun o => orderWith_eq_ok_iff_schedule hc hd hs hdeg, fun cs h => ?_⟩
  obtain ⟨hna, rfl⟩ := (orderWith_eq_error_iff hc hd hs hdeg).mp h
  obtain ⟨hdisj, hcomp, hcov, hord⟩ := cyclesOf_labels hc hd hcomps
  -- a node on a cycle is in one of the reported components
  have ⟨a, ha⟩ : ∃ a, TransGen g.Adj a a := by
    by_contra hno
    exact hna fun a ha => hno ⟨a, ha⟩
  obtain ⟨c, hcyc, -⟩ := hcov a ha
  refine ⟨List.ne_nil_of_mem hcyc, hdisj, fun c hc' => ?_, fun a ha => hcov a
    (Strong.transGen_self_iff.mpr ha), hord⟩
  obtain ⟨hnd, a, hlt, hca, haa⟩ := hcomp c hc'
  exact ⟨hnd, a, hlt, hca, Strong.transGen_self_iff.mp haa⟩

end Lists

-- The order over the graph's own lists.
theorem order_least_or_cycles (hb : g.Built) :
    ((∃ o, g.order = .ok o) ↔ g.Acyclic) ∧
      (∀ o, g.order = .ok o ↔ g.Acyclic ∧ g.Schedule o ∧ ∀ o', g.Schedule o' → o ≤ o') ∧
      ∀ cs, g.order = .error cs → cs ≠ [] ∧ cs.Pairwise List.Disjoint ∧
        (∀ c ∈ cs, c.Nodup ∧ ∃ a < g.size,
          (∀ x, x ∈ c ↔ ∃ u, Strong g.Adj a u ∧ g.label u = x) ∧
          ((∃ b ≠ a, Strong g.Adj a b) ∨ g.Adj a a)) ∧
        (∀ a, (∃ b ≠ a, Strong g.Adj a b) ∨ g.Adj a a → ∃ c ∈ cs, g.label a ∈ c) ∧
        cs.Pairwise fun c c' => ∃ x ∈ c, ∀ y ∈ c', x < y := by
  have ⟨_, hc, _⟩ := hb.indexed
  exact orderWith_least_or_cycles hb successors_spec inDegrees_spec (components_spec hc)

-- Node `4`, then twice an edge from `9`, which the first edge adds.
def repeatedEdge : Graph := ((empty.addNode 4).1.addEdge 9 4).addEdge 9 4

theorem order_least_or_cycles_repeatedEdge :
    repeatedEdge.Built ∧
      (((∃ o, repeatedEdge.order = .ok o) ↔ repeatedEdge.Acyclic) ∧
        (∀ o, repeatedEdge.order = .ok o ↔ repeatedEdge.Acyclic ∧ repeatedEdge.Schedule o ∧
          ∀ o', repeatedEdge.Schedule o' → o ≤ o') ∧
        ∀ cs, repeatedEdge.order = .error cs → cs ≠ [] ∧ cs.Pairwise List.Disjoint ∧
          (∀ c ∈ cs, c.Nodup ∧ ∃ a < repeatedEdge.size,
            (∀ x, x ∈ c ↔ ∃ u, Strong repeatedEdge.Adj a u ∧ repeatedEdge.label u = x) ∧
            ((∃ b ≠ a, Strong repeatedEdge.Adj a b) ∨ repeatedEdge.Adj a a)) ∧
          (∀ a, (∃ b ≠ a, Strong repeatedEdge.Adj a b) ∨ repeatedEdge.Adj a a →
            ∃ c ∈ cs, repeatedEdge.label a ∈ c) ∧
          cs.Pairwise fun c c' => ∃ x ∈ c, ∀ y ∈ c', x < y) :=
  have hb : repeatedEdge.Built := .addEdge 9 4 (.addEdge 9 4 (.addNode 4 .empty))
  ⟨hb, order_least_or_cycles hb⟩

end Graph

end ContractDeploy
