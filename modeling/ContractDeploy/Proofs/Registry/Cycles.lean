import ContractDeploy.Proofs.Registry.Reachable
import ContractDeploy.Proofs.StableSort
import ContractDeploy.Proofs.Graph.Cycles

namespace ContractDeploy.Registry

open Relation

variable {r r₁ : Registry} {c : Contract} {i : Nat}

@[simp] theorem member_id : (r.member i).id = i := by
  unfold member
  split <;> rfl

theorem member_eq (h : r.contracts[i]? = some c) : r.member i = ⟨i, c.name, c.location⟩ := by
  simp [member, get?, h]

-- Each reported member is the contract of its number, as registered: resolving keeps names and
-- locations.
theorem member_resolve (h : r.resolve = .ok r₁) (hi : i < r.contracts.length) :
    ∃ c, r.contracts[i]? = some c ∧ (r₁.member i).name = c.name ∧
      (r₁.member i).location = c.location := by
  have hlen := (resolve_contracts h).1
  have hk := (extends_resolve h).keeps i hi (hlen ▸ hi)
  refine ⟨r.contracts[i], List.getElem?_eq_getElem hi, ?_⟩
  rw [member_eq (List.getElem?_eq_getElem (hlen ▸ hi)), hk.name, hk.location]
  exact ⟨rfl, rfl⟩

-- A sort fails with cycles only after resolving, and it reports the cycles of the resolved
-- graph.
theorem Wf.sort_eq_cyclicImport (hw : r.Wf) (h : r.sort.2 = some (.cyclicImport cyc)) :
    ∃ r₁, r.resolve = .ok r₁ ∧ ¬r₁.graph.Acyclic ∧ cyc = r₁.graph.cycles.map (·.map r₁.member) := by
  cases hres : r.resolve with
  | error e =>
    -- resolving fails only at an unresolved import
    rw [sort_of_resolve_error hres] at h
    obtain ⟨c, -, i, -, -, rfl⟩ := resolve_eq_error hres
    cases h
  | ok r₁ =>
    cases ho : r₁.graph.order with
    | ok o => rw [sort_of_order_ok hres ho] at h; cases h
    | error cs =>
      rw [sort_of_order_error hres ho] at h
      obtain ⟨hna, rfl⟩ := (hw.resolve hres).order_eq_error_iff.mp ho
      simp only [Option.some.injEq, DeployError.cyclicImport.injEq] at h
      exact ⟨r₁, rfl, hna, h.symm⟩

-- The cycles of the graph after resolving, in contract numbers: the strongly connected
-- components of the imports whose contracts lie on a cycle, each once, by least number.
theorem Wf.resolve_cycles (hw : r.Wf) (hres : r.resolve = .ok r₁) :
    r₁.graph.cycles.Pairwise List.Disjoint ∧
      (∀ c ∈ r₁.graph.cycles, c.Nodup ∧ (∀ u ∈ c, u < r.contracts.length) ∧
        ∃ a, (∀ u, u ∈ c ↔ Strong r.Imports a u) ∧ TransGen r.Imports a a) ∧
      (∀ a, TransGen r.Imports a a → ∃ c ∈ r₁.graph.cycles, a ∈ c) ∧
      r₁.graph.cycles.Pairwise fun c c' => ∃ u ∈ c, ∀ u' ∈ c', u < u' := by
  have hw₁ := hw.resolve hres
  have hlen : r₁.contracts.length = r.contracts.length := (resolve_contracts hres).1
  obtain ⟨ns, hns, hdisj, hcomp, hcov, hord⟩ :=
    Graph.cyclesOf_spec hw₁.graph_closed hw₁.graph_distinct (Graph.components_spec hw₁.graph_closed)
  rw [hw.adj_resolve_eq hres] at hcomp hcov
  rw [hw₁.graph_size, hlen] at hcomp
  -- the nodes are the contract numbers, their own labels
  have hlt : ∀ c ∈ ns, ∀ u ∈ c, u < r₁.contracts.length := fun c hc u hu =>
    hlen ▸ (hcomp c hc).2.1 u hu
  have hns' : r₁.graph.cycles = ns := by
    rw [Graph.cycles, hns, List.map_congr_left fun c hc => hw₁.map_graph_label (hlt c hc),
      List.map_id']
  rw [hns']
  refine ⟨hdisj, hcomp, hcov, hord.imp_of_mem fun hc hc' ⟨u, hu, hlab⟩ => ⟨u, hu, fun u' hu' => ?_⟩⟩
  have := hlab u' hu'
  rwa [hw₁.graph_label (hlt _ hc u hu), hw₁.graph_label (hlt _ hc' u' hu')] at this

-- A failed sort of a well-formed registry, as every registry the calls reach is, reports its
-- import cycles: the strongly connected components of the import graph with more than one
-- contract or a contract importing itself. There is one at least, no contract stands in two or
-- twice in one, they come by their least numbers, and each member is the contract of its
-- number; a contract that only imports from a cycle, or is only imported by one, is on none.
theorem cyclic_import_components (hw : r.Wf) (h : r.sort.2 = some (.cyclicImport cyc)) :
    cyc ≠ [] ∧ (cyc.map (·.map (·.id))).Pairwise List.Disjoint ∧
      (∀ l ∈ cyc, (l.map (·.id)).Nodup ∧
        ∃ a, (∀ b, b ∈ l.map (·.id) ↔ Strong r.Imports a b) ∧
          ((∃ b ≠ a, Strong r.Imports a b) ∨ r.Imports a a)) ∧
      (∀ a, (∃ b ≠ a, Strong r.Imports a b) ∨ r.Imports a a → ∃ l ∈ cyc, a ∈ l.map (·.id)) ∧
      cyc.Pairwise (fun l l' => ∃ m ∈ l, ∀ m' ∈ l', m.id < m'.id) ∧
      ∀ l ∈ cyc, ∀ m ∈ l, ∃ c, r.contracts[m.id]? = some c ∧ m.name = c.name ∧
        m.location = c.location := by
  obtain ⟨r₁, hres, hna, rfl⟩ := hw.sort_eq_cyclicImport h
  obtain ⟨hdisj, hcomp, hcov, hord⟩ := hw.resolve_cycles hres
  -- each member carries its number, so the members' numbers are the cycles themselves
  have hids : (r₁.graph.cycles.map (·.map r₁.member)).map (·.map (·.id)) = r₁.graph.cycles := by
    simp [Function.comp_def]
  have hmem : ∀ l, l ∈ r₁.graph.cycles.map (·.map r₁.member) ↔
      ∃ c ∈ r₁.graph.cycles, c.map r₁.member = l := by
    simp
  refine ⟨?_, by rw [hids]; exact hdisj, ?_, ?_, ?_, ?_⟩
  · -- the graph has a cycle, and its component is reported
    have ⟨a, ha⟩ : ∃ a, TransGen r.Imports a a := by
      by_contra hno
      exact hna fun a => by rw [hw.adj_resolve_eq hres]; exact fun ha => hno ⟨a, ha⟩
    obtain ⟨c, hc, -⟩ := hcov a ha
    exact List.ne_nil_of_mem (List.mem_map_of_mem hc)
  · intro l hl
    obtain ⟨c, hc, rfl⟩ := (hmem l).mp hl
    obtain ⟨hnd, -, a, hca, haa⟩ := hcomp c hc
    simp only [List.map_map, Function.comp_def, member_id, List.map_id']
    exact ⟨hnd, a, hca, Strong.transGen_self_iff.mp haa⟩
  · intro a ha
    obtain ⟨c, hc, hac⟩ := hcov a (Strong.transGen_self_iff.mpr ha)
    refine ⟨_, (hmem _).mpr ⟨c, hc, rfl⟩, ?_⟩
    simpa [Function.comp_def] using hac
  · rw [List.pairwise_map]
    refine hord.imp fun ⟨u, hu, hlt⟩ => ⟨r₁.member u, List.mem_map_of_mem hu, fun m' hm' => ?_⟩
    obtain ⟨u', hu', rfl⟩ := List.mem_map.mp hm'
    simpa using hlt u' hu'
  · intro l hl m hm
    obtain ⟨c, hc, rfl⟩ := (hmem l).mp hl
    obtain ⟨u, hu, rfl⟩ := List.mem_map.mp hm
    rw [member_id]
    exact member_resolve hres ((hcomp c hc).2.1 u hu)

-- `A` and `B` import each other, `C` imports `A` and `D` imports itself. The cycles are `A` with
-- `B`, then `D`; `C`, which only imports from a cycle, is on none.
def ringSources : Sources :=
  ⟨Table.ofList [("a.cdc", Utf8.encode "import \"b.cdc\"\ncontract A \x7b\x7d"),
    ("b.cdc", Utf8.encode "import \"a.cdc\"\ncontract B \x7b\x7d"),
    ("c.cdc", Utf8.encode "import \"a.cdc\"\ncontract C \x7b\x7d"),
    ("d.cdc", Utf8.encode "import \"d.cdc\"\ncontract D \x7b\x7d")]⟩

def ring : Registry :=
  let r : Registry := ⟨{}, .importSpans, [], []⟩
  (((r.afterAdd ringSources "a.cdc" ⟨1⟩ "" []).afterAdd ringSources "b.cdc" ⟨2⟩ "" []).afterAdd
    ringSources "c.cdc" ⟨3⟩ "" []).afterAdd ringSources "d.cdc" ⟨4⟩ "" []

def ringCycles : List (List CycleMember) :=
  [[⟨1, "B", "b.cdc"⟩, ⟨0, "A", "a.cdc"⟩], [⟨3, "D", "d.cdc"⟩]]

theorem cyclic_import_components_ring :
    ring.Reachable .default ∧ ring.Wf ∧ ring.sort.2 = some (.cyclicImport ringCycles) ∧
      (ringCycles ≠ [] ∧ (ringCycles.map (·.map (·.id))).Pairwise List.Disjoint ∧
        (∀ l ∈ ringCycles, (l.map (·.id)).Nodup ∧
          ∃ a, (∀ b, b ∈ l.map (·.id) ↔ Strong ring.Imports a b) ∧
            ((∃ b ≠ a, Strong ring.Imports a b) ∨ ring.Imports a a)) ∧
        (∀ a, (∃ b ≠ a, Strong ring.Imports a b) ∨ ring.Imports a a →
          ∃ l ∈ ringCycles, a ∈ l.map (·.id)) ∧
        ringCycles.Pairwise (fun l l' => ∃ m ∈ l, ∀ m' ∈ l', m.id < m'.id) ∧
        ∀ l ∈ ringCycles, ∀ m ∈ l, ∃ c, ring.contracts[m.id]? = some c ∧
          m.name = c.name ∧ m.location = c.location) := by
  have hr : ring.Reachable .default := by
    unfold ring
    exact .afterAdd (.afterAdd (.afterAdd (.afterAdd (.config rfl))))
  have hw := hr.wf
  obtain ⟨r₁, hres⟩ := resolve_isOk_iff_resolvable.mpr
    (show ring.Resolvable by unfold Resolvable; decide +kernel)
  -- `B` imports `A` and `A` imports `B`: a cycle in the graph
  have h01 : r₁.graph.Adj 0 1 :=
    (hw.adj_resolve hres).mpr (imports_of_getElem (by decide +kernel) (by decide +kernel) (by decide +kernel))
  have h10 : r₁.graph.Adj 1 0 :=
    (hw.adj_resolve hres).mpr (imports_of_getElem (by decide +kernel) (by decide +kernel) (by decide +kernel))
  have ho : r₁.graph.order = .error r₁.graph.cycles :=
    (hw.resolve hres).order_eq_error_iff.mpr ⟨fun ha => ha 0 (.tail (.single h01) h10), rfl⟩
  -- the cycles depend on the labels and edges only, and those can be evaluated
  have hge : ring.resolve.toOption.map (fun r => (r.graph.labels, r.graph.edges)) =
      some (#[0, 1, 2, 3], #[(1, 0), (0, 1), (0, 2), (3, 3)]) := by
    decide +kernel
  rw [hres] at hge
  obtain ⟨hl, he⟩ := Prod.mk.inj (Option.some.inj hge)
  have hlit : (⟨#[0, 1, 2, 3], ∅, #[(1, 0), (0, 1), (0, 2), (3, 3)]⟩ : Graph).cycles =
      [[1, 0], [3]] := by
    simp only [Graph.cycles, Graph.cyclesOf, Graph.components, mergeSort_key_eq_insertionSort]
    decide +kernel
  have hcycles : r₁.graph.cycles = [[1, 0], [3]] := (Graph.cycles_congr hl he).trans hlit
  have hmembers : ring.resolve.toOption.map (fun r => [1, 0, 3].map r.member) =
      some [⟨1, "B", "b.cdc"⟩, ⟨0, "A", "a.cdc"⟩, ⟨3, "D", "d.cdc"⟩] := by
    decide +kernel
  rw [hres] at hmembers
  have hm := Option.some.inj hmembers
  simp only [List.map_cons, List.map_nil, List.cons.injEq, and_true] at hm
  obtain ⟨h₁, h₀, h₃⟩ := hm
  have hsort : ring.sort.2 = some (.cyclicImport ringCycles) := by
    rw [sort_of_order_error hres ho, hcycles]
    simp [h₁, h₀, h₃, ringCycles]
  exact ⟨hr, hw, hsort, cyclic_import_components hw hsort⟩

end ContractDeploy.Registry
