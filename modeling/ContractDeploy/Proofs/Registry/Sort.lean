import ContractDeploy.Proofs.Registry.Graph

namespace ContractDeploy.Registry

variable {r r₁ : Registry} {o : List Nat} {L : String}

-- Every import names a registered location or an alias.
def Resolvable (r : Registry) : Prop :=
  ∀ c ∈ r.contracts, ∀ L ∈ c.locations, (∃ c' ∈ r.contracts, c'.location = L) ∨ L ∈ r.aliases.keys

-- `l` numbers every contract once, each after all it imports, directly or not.
def DeployOrder (r : Registry) (l : List Nat) : Prop :=
  l.Perm (List.range r.contracts.length) ∧ ∀ a b, Relation.TransGen r.Imports a b → Precedes l a b

theorem sort_of_resolve_error (h : r.resolve = .error e) : r.sort = (r, some e) := by
  simp [sort, h]

theorem sort_of_order_ok (h : r.resolve = .ok r₁) (ho : r₁.graph.order = .ok o) :
    r.sort = ({ r₁ with order := o }, none) := by
  simp [sort, h, ho]

theorem sort_of_order_error (h : r.resolve = .ok r₁) (ho : r₁.graph.order = .error cs) :
    r.sort = (r₁, some (.cyclicImport (cs.map (·.map r₁.member)))) := by
  simp [sort, h, ho]

theorem resolution?_isSome :
    (r.resolution? L).isSome ↔ (∃ c ∈ r.contracts, c.location = L) ∨ L ∈ r.aliases.keys := by
  cases hc : r.contractAt? L
  case some c =>
    simp only [resolution?, hc, Option.isSome_some, true_iff]
    exact .inl ⟨c, contractAt?_eq_some hc⟩
  case none =>
    have hno : ¬∃ c ∈ r.contracts, c.location = L := by
      rintro ⟨c, hc', hl⟩
      exact contractAt?_eq_none.mp hc c hc' hl
    simp only [resolution?, hc, hno, false_or, Option.isSome_map]
    cases ha : r.aliases.find? L
    case none => simp [Table.find?_eq_none_iff.mp ha]
    case some a => simp [Table.mem_keys.mpr ⟨a, Table.mem_of_find? ha⟩]

theorem resolve_isOk_iff_resolvable : (∃ r', r.resolve = .ok r') ↔ r.Resolvable := by
  rw [resolve_isOk_iff]
  refine forall₂_congr fun c _ => ?_
  simp only [Contract.locations, List.mem_map, forall_exists_index, and_imp,
    forall_apply_eq_imp_iff₂, resolution?_isSome]

namespace Wf

variable (hw : r.Wf)
include hw

-- The numbers are the labels, so the order of the graph is its placement.
theorem order_eq_ok_iff : r.graph.order = .ok o ↔ r.graph.Acyclic ∧ o = r.graph.placement := by
  have hlt := (Graph.placement_greedy hw.graph_closed hw.graph_distinct).lt
  rw [Graph.order_eq_ok_iff hw.graph_closed hw.graph_distinct,
    hw.map_graph_label fun i hi => hw.graph_size ▸ hlt i hi]

theorem order_eq_error_iff : r.graph.order = .error cs ↔ ¬r.graph.Acyclic ∧ cs = r.graph.cycles :=
  Graph.order_eq_error_iff hw.graph_closed hw.graph_distinct

variable {r' : Registry} (h : r.resolve = .ok r')
include h

theorem adj_resolve_eq : r'.graph.Adj = r.Imports := by
  funext a b
  exact propext (hw.adj_resolve h)

theorem topological_iff : r'.graph.Topological l ↔ r.DeployOrder l := by
  have hw' := hw.resolve h
  have hsize : r'.graph.size = r.contracts.length := by
    rw [hw'.graph_size, (resolve_contracts h).1]
  rw [Graph.Topological, DeployOrder, hsize, hw.adj_resolve_eq h]
  constructor
  · rintro ⟨hp, hr⟩
    have hnd : l.Nodup := hp.nodup_iff.mpr List.nodup_range
    exact ⟨hp, fun a b hab => Precedes.of_transGen hnd hr hab⟩
  · rintro ⟨hp, hr⟩
    exact ⟨hp, fun a b hab => hr a b (.single hab)⟩

theorem acyclic_iff : r'.graph.Acyclic ↔ ∀ a, ¬Relation.TransGen r.Imports a a := by
  rw [Graph.Acyclic, hw.adj_resolve_eq h]

end Wf

theorem extends_sort : r.Extends r.sort.1 := by
  cases h : r.resolve with
  | error e => rw [sort_of_resolve_error h]; exact .refl r
  | ok r₁ =>
    cases ho : r₁.graph.order with
    | ok o =>
      have hk := extends_resolve h
      rw [sort_of_order_ok h ho]
      exact ⟨hk.length_le, hk.keeps, hk.aliases⟩
    | error cs => rw [sort_of_order_error h ho]; exact extends_resolve h

theorem sort_fields : r.sort.1.contracts.length = r.contracts.length ∧
    r.sort.1.substitution = r.substitution := by
  cases h : r.resolve with
  | error e => simp [sort_of_resolve_error h]
  | ok r₁ =>
    obtain ⟨-, hsub, -, -⟩ := resolve_eq_ok h
    have hlen := (resolve_contracts h).1
    cases ho : r₁.graph.order with
    | ok o => simp [sort_of_order_ok h ho, hlen, hsub]
    | error cs => simp [sort_of_order_error h ho, hlen, hsub]

theorem sort_contracts :
    r.sort.1.contracts = r.contracts ∨ ∃ r₁, r.resolve = .ok r₁ ∧ r.sort.1.contracts = r₁.contracts := by
  cases h : r.resolve with
  | error e => exact .inl (by rw [sort_of_resolve_error h])
  | ok r₁ =>
    refine .inr ⟨r₁, rfl, ?_⟩
    cases ho : r₁.graph.order with
    | ok o => rw [sort_of_order_ok h ho]
    | error cs => rw [sort_of_order_error h ho]

theorem Wf.sort (hw : r.Wf) : r.sort.1.Wf := by
  cases h : r.resolve with
  | error e => rw [sort_of_resolve_error h]; exact hw
  | ok r₁ =>
    have hw₁ := hw.resolve h
    cases ho : r₁.graph.order with
    | error cs => rw [sort_of_order_error h ho]; exact hw₁
    | ok o =>
      -- the new order is the placement, a permutation of the numbers
      rw [sort_of_order_ok h ho]
      obtain ⟨ha, rfl⟩ := (hw₁.order_eq_ok_iff).mp ho
      have ht := Graph.topological_placement hw₁.graph_closed hw₁.graph_distinct ha
      exact hw₁.withOrder (hw₁.graph_size ▸ ht.1)

theorem resolve_withOrder :
    ({ r with order := o }).resolve = r.resolve.map fun r₁ => { r₁ with order := o } := by
  have : ({ r with order := o }).resolutionsOf = r.resolutionsOf := rfl
  cases hm : r.contracts.mapM r.resolutionsOf <;>
    simp [resolve, this, hm, bind, Except.bind, pure, Except.pure, Except.map]

theorem sort_withOrder (hs : r.sort.2 = none) : ({ r with order := o }).sort = r.sort := by
  cases h : r.resolve with
  | error e => rw [sort_of_resolve_error h] at hs; cases hs
  | ok r₁ =>
    cases ho : r₁.graph.order with
    | error cs => rw [sort_of_order_error h ho] at hs; cases hs
    | ok o' =>
      have h' : ({ r with order := o }).resolve = .ok { r₁ with order := o } := by
        simp [resolve_withOrder, h, Except.map]
      rw [sort_of_order_ok h ho, sort_of_order_ok h' ho]

-- Sorting succeeds exactly when every import resolves and no contract imports itself, directly
-- or not.
theorem Wf.sort_eq_none_iff (hw : r.Wf) :
    r.sort.2 = none ↔ r.Resolvable ∧ ∀ a, ¬Relation.TransGen r.Imports a a := by
  cases h : r.resolve with
  | error e =>
    rw [sort_of_resolve_error h]
    simp only [reduceCtorEq, false_iff, not_and]
    intro hres
    obtain ⟨r', h'⟩ := resolve_isOk_iff_resolvable.mpr hres
    rw [h] at h'
    cases h'
  | ok r₁ =>
    have hres := resolve_isOk_iff_resolvable.mp ⟨r₁, h⟩
    have hw₁ := hw.resolve h
    rw [← hw.acyclic_iff h]
    cases ho : r₁.graph.order with
    | ok o => simp [sort_of_order_ok h ho, hres, (hw₁.order_eq_ok_iff.mp ho).1]
    | error cs => simp [sort_of_order_error h ho, (hw₁.order_eq_error_iff.mp ho).1]

theorem Wf.sort_ok (hw : r.Wf) (hs : r.sort.2 = none) :
    r.DeployOrder r.sort.1.order ∧ ∀ l, r.DeployOrder l → r.sort.1.order ≤ l := by
  cases h : r.resolve with
  | error e => rw [sort_of_resolve_error h] at hs; cases hs
  | ok r₁ =>
    have hw₁ := hw.resolve h
    have hc := hw₁.graph_closed
    have hd := hw₁.graph_distinct
    cases ho : r₁.graph.order with
    | error cs => rw [sort_of_order_error h ho] at hs; cases hs
    | ok o =>
      rw [sort_of_order_ok h ho]
      obtain ⟨ha, rfl⟩ := hw₁.order_eq_ok_iff.mp ho
      have hp := Graph.topological_placement hc hd ha
      refine ⟨(hw.topological_iff h).mp hp, fun l hl => ?_⟩
      have ht := (hw.topological_iff h).mpr hl
      -- both sides are lists of numbers, which are their own labels
      have hle := Graph.placement_le hc hd ht
      rwa [hw₁.map_graph_label fun i hi => hw₁.graph_size ▸ hp.mem.mp hi,
        hw₁.map_graph_label fun i hi => hw₁.graph_size ▸ ht.mem.mp hi] at hle

theorem sort_order_of_ne_none (hs : r.sort.2 ≠ none) : r.sort.1.order = r.order := by
  cases h : r.resolve with
  | error e => rw [sort_of_resolve_error h]
  | ok r₁ =>
    cases ho : r₁.graph.order with
    | error cs => rw [sort_of_order_error h ho]; exact (resolve_eq_ok h).2.2.1
    | ok o => rw [sort_of_order_ok h ho] at hs; exact absurd rfl hs

end ContractDeploy.Registry
