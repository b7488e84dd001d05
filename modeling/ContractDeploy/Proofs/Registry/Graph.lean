import ContractDeploy.Proofs.Registry.Invariant
import ContractDeploy.Proofs.Graph.Order

namespace ContractDeploy

namespace Graph

variable {g : Graph} {n : Nat}

-- Node `i` carries label `i`, for the first `n` numbers: the graph of a registry, whose nodes
-- are the contract numbers in order.
structure Numbered (g : Graph) (n : Nat) : Prop where
  labels : g.labels.toList = List.range n
  nodeOf : ∀ l, g.nodeOf[l]? = if l < n then some l else none

theorem numbered_empty : empty.Numbered 0 := ⟨rfl, fun l => by simp [empty]⟩

namespace Numbered

theorem size_eq (h : g.Numbered n) : g.size = n := by
  simpa [size] using congrArg List.length h.labels

theorem label_eq (h : g.Numbered n) (hi : i < n) : g.label i = i := by
  have : g.labels[i]? = some i := by
    rw [← Array.getElem?_toList, h.labels, List.getElem?_range hi]
  simp [label, this]

theorem distinct (h : g.Numbered n) : g.Distinct := by
  rw [Distinct, h.labels]
  exact List.nodup_range

theorem addNode_of_lt (h : g.Numbered n) (hl : l < n) : g.addNode l = (g, l) := by
  simp [addNode, indexOf?, h.nodeOf, hl]

theorem addNode_next (h : g.Numbered n) :
    (g.addNode n).1.Numbered (n + 1) ∧ (g.addNode n).1.edges = g.edges := by
  have hsize : g.labels.size = n := h.size_eq
  have hadd : (g.addNode n).1 = ⟨g.labels.push n, g.nodeOf.insert n n, g.edges⟩ := by
    simp [addNode, indexOf?, h.nodeOf, hsize]
  rw [hadd]
  refine ⟨⟨by simp [h.labels, List.range_succ], fun l => ?_⟩, rfl⟩
  simp only [Std.TreeMap.getElem?_insert, compare_eq_iff_eq, h.nodeOf]
  by_cases hl : n = l
  · subst hl; simp
  · have : l < n + 1 ↔ l < n := by omega
    simp [hl, this]

theorem addEdge_eq (h : g.Numbered n) (ha : a < n) (hb : b < n) :
    g.addEdge a b = ⟨g.labels, g.nodeOf, g.edges.push (a, b)⟩ := by
  simp [addEdge, h.addNode_of_lt ha, h.addNode_of_lt hb]

end Numbered

end Graph

namespace Registry

variable {r : Registry} {g : Graph} {n : Nat}

-- The edges of the registry's graph: one from each dependency to its dependent, by contract
-- and then by location.
def depEdges (r : Registry) : List (Nat × Nat) :=
  r.contracts.flatMap fun c => c.dependencies.toList.map fun e => (e.2.id, c.id)

private theorem foldl_addNode (l : List Contract) (hl : l.map (·.id) = List.range' k l.length)
    (hg : g.Numbered k) :
    (l.foldl (fun g c => (g.addNode c.id).1) g).Numbered (k + l.length) ∧
      (l.foldl (fun g c => (g.addNode c.id).1) g).edges = g.edges := by
  induction l generalizing g k
  case nil => simpa using hg
  case cons c l ih =>
    simp only [List.map_cons, List.length_cons, List.range'_succ, List.cons.injEq] at hl
    obtain ⟨rfl, hl⟩ := hl
    have ⟨hn, he⟩ := hg.addNode_next
    have ⟨hn', he'⟩ := ih hl hn
    exact ⟨by simpa [Nat.add_assoc, Nat.add_comm 1] using hn', he'.trans he⟩

private theorem foldl_addEdge (es : List (String × Dependency)) (hg : g.Numbered n) (hc : b < n)
    (hes : ∀ e ∈ es, e.2.id < n) :
    es.foldl (fun g e => g.addEdge e.2.id b) g =
      ⟨g.labels, g.nodeOf, g.edges ++ (es.map fun e => (e.2.id, b)).toArray⟩ := by
  induction es generalizing g
  case nil => simp
  case cons e es ih =>
    have hg' : (⟨g.labels, g.nodeOf, g.edges.push (e.2.id, b)⟩ : Graph).Numbered n :=
      ⟨hg.labels, hg.nodeOf⟩
    rw [List.foldl_cons, hg.addEdge_eq (hes e (List.mem_cons_self ..)) hc,
      ih hg' fun e' he' => hes e' (List.mem_cons_of_mem _ he')]
    simp

theorem Wf.graph (hw : r.Wf) :
    r.graph.Numbered r.contracts.length ∧ r.graph.edges.toList = r.depEdges := by
  have ⟨hn, he⟩ := foldl_addNode r.contracts (by simpa [List.range_eq_range'] using hw.ids_eq)
    Graph.numbered_empty
  simp only [Nat.zero_add] at hn
  simp only [Registry.graph]
  generalize r.contracts.foldl (fun g c => (g.addNode c.id).1) Graph.empty = g₀ at hn he ⊢
  have hedge : ∀ (l : List Contract) (g : Graph), (∀ c ∈ l, c ∈ r.contracts) →
      g.Numbered r.contracts.length →
      (l.foldl (fun g c => c.dependencies.toList.foldl (fun g e => g.addEdge e.2.id c.id) g) g) =
        ⟨g.labels, g.nodeOf, g.edges ++
          (l.flatMap fun c => c.dependencies.toList.map fun e => (e.2.id, c.id)).toArray⟩ := by
    intro l
    induction l
    case nil => simp
    case cons c l ih =>
      intro g hl hg
      have hcm := hl c (List.mem_cons_self ..)
      have hg' : (⟨g.labels, g.nodeOf, g.edges ++ (c.dependencies.toList.map
          fun e => (e.2.id, c.id)).toArray⟩ : Graph).Numbered r.contracts.length :=
        ⟨hg.labels, hg.nodeOf⟩
      rw [List.foldl_cons, foldl_addEdge _ hg (hw.id_lt hcm)
        fun e he => (hw.dependencyEntry c hcm e.1 e.2 he).2.1,
        ih _ (fun c' hc' => hl c' (List.mem_cons_of_mem _ hc')) hg']
      simp
  rw [hedge r.contracts g₀ (fun _ h => h) hn]
  exact ⟨⟨hn.labels, hn.nodeOf⟩, by simp [he, Graph.empty, depEdges]⟩

theorem Wf.graph_size (hw : r.Wf) : r.graph.size = r.contracts.length := hw.graph.1.size_eq

theorem Wf.graph_label (hw : r.Wf) (hi : i < r.contracts.length) : r.graph.label i = i :=
  hw.graph.1.label_eq hi

theorem Wf.map_graph_label {l : List Nat} (hw : r.Wf) (hl : ∀ i ∈ l, i < r.contracts.length) :
    l.map r.graph.label = l := by
  rw [List.map_congr_left fun i hi => hw.graph_label (hl i hi), List.map_id']

theorem Wf.graph_distinct (hw : r.Wf) : r.graph.Distinct := hw.graph.1.distinct

theorem Wf.graph_adj (hw : r.Wf) : r.graph.Adj a b ↔
    ∃ c ∈ r.contracts, c.id = b ∧ ∃ e ∈ c.dependencies.toList, e.2.id = a := by
  simp only [Graph.Adj, hw.graph.2, depEdges, List.mem_flatMap, List.mem_map, Prod.mk.injEq]
  constructor
  · rintro ⟨c, hc, e, he, rfl, rfl⟩
    exact ⟨c, hc, rfl, e, he, rfl⟩
  · rintro ⟨c, hc, rfl, e, he, rfl⟩
    exact ⟨c, hc, e, he, rfl, rfl⟩

theorem Wf.graph_closed (hw : r.Wf) : r.graph.Closed := by
  intro e he
  obtain ⟨c, hc, hb, d, hd, ha⟩ := hw.graph_adj.mp he
  rw [hw.graph_size, ← ha, ← hb]
  exact ⟨(hw.dependencyEntry c hc d.1 d.2 hd).2.1, hw.id_lt hc⟩

-- The import graph: contract `b` imports the location of contract `a`.
def Imports (r : Registry) (a b : Nat) : Prop :=
  ∃ ca cb, r.contracts[a]? = some ca ∧ r.contracts[b]? = some cb ∧ ca.location ∈ cb.locations

theorem imports_of_getElem {a b : Nat} (ha : a < r.contracts.length) (hb : b < r.contracts.length)
    (h : r.contracts[a].location ∈ r.contracts[b].locations) : r.Imports a b :=
  ⟨_, _, List.getElem?_eq_getElem ha, List.getElem?_eq_getElem hb, h⟩

theorem Wf.adj_resolve (hw : r.Wf) (h : r.resolve = .ok r') : r'.graph.Adj a b ↔ r.Imports a b := by
  have hw' := hw.resolve h
  have hk := extends_resolve h
  have hlen := (resolve_contracts h).1
  rw [hw'.graph_adj]
  constructor
  · rintro ⟨c, hc, rfl, ⟨L, d⟩, hd, rfl⟩
    obtain ⟨hL, hlt, hl, -⟩ := hw'.dependencyEntry c hc L d hd
    have hb := hw'.id_lt hc
    have hkb := hk.keeps c.id (hlen ▸ hb) hb
    have hka := hk.keeps d.id (hlen ▸ hlt) hlt
    rw [hw'.getElem_id hc hb] at hkb
    refine ⟨r.contracts[d.id], r.contracts[c.id], by simp, by simp, ?_⟩
    rw [← hkb.locations, ← hka.location, hl]
    exact hL
  · rintro ⟨ca, cb, hca, hcb, hL⟩
    obtain ⟨ha, rfl⟩ := List.getElem?_eq_some_iff.mp hca
    obtain ⟨hb, rfl⟩ := List.getElem?_eq_some_iff.mp hcb
    have hx : r.resolution? r.contracts[a].location =
        some (.dependency ⟨r.contracts[a].id, r.contracts[a].name, r.contracts[a].target⟩) :=
      resolution?_eq_some.mpr (.inl ⟨_, hw.contractAt?_eq_some_iff.mpr ⟨List.getElem_mem ha, rfl⟩, rfl⟩)
    have hb' : b < r'.contracts.length := hlen ▸ hb
    have hd := (resolve_recorded h hb hb' hL hx).1
    refine ⟨r'.contracts[b], List.getElem_mem hb', hw'.id_eq b hb', _, Table.mem_of_find? hd, ?_⟩
    exact hw.id_eq a ha

end Registry

end ContractDeploy
