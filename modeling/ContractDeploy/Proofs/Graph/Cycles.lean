import ContractDeploy.Proofs.Graph.Components

namespace ContractDeploy.Graph

open Relation

variable {g : Graph} {c c' : List Nat} {comps : List (List Nat)} {a : Nat}

-- A component kept as a cycle: one node with a loop, or more than one node.
def Looped (g : Graph) (c : List Nat) : Bool :=
  match c with
  | [v] => g.edges.toList.contains (v, v)
  | _ => decide (c.length > 1)

theorem cyclesOf_eq : g.cyclesOf comps = ((comps.filter g.Looped).mergeSort fun a b =>
    g.leastLabel a ≤ g.leastLabel b).map (·.map g.label) := rfl

theorem cycles_congr {g g' : Graph} (hl : g.labels = g'.labels) (he : g.edges = g'.edges) :
    g.cycles = g'.cycles := by
  obtain ⟨l, n, e⟩ := g
  obtain ⟨l', n', e'⟩ := g'
  dsimp only at hl he
  subst hl he
  rfl

theorem looped_iff (hnd : c.Nodup) (hcomp : ∀ u, u ∈ c ↔ Strong g.Adj a u) :
    g.Looped c = true ↔ TransGen g.Adj a a := by
  have hac : a ∈ c := (hcomp a).mpr (.refl a)
  rw [Strong.transGen_self_iff]
  match c, hnd, hcomp, hac with
  | [], _, _, hac => exact absurd hac List.not_mem_nil
  | [v], _, hcomp, hac =>
    obtain rfl := List.mem_singleton.mp hac
    -- the one node strongly connected to `a` is `a`
    have hno : ¬∃ b ≠ a, Strong g.Adj a b :=
      fun ⟨b, hb, hab⟩ => hb (List.mem_singleton.mp ((hcomp b).mpr hab))
    simp [Looped, Adj, hno]
  | v :: w :: rest, hnd, hcomp, _ =>
    -- two distinct nodes, one of them other than `a`
    have hvw : v ≠ w := fun h => (List.nodup_cons.mp hnd).1 (h ▸ List.mem_cons_self)
    have hb : ∃ b ≠ a, Strong g.Adj a b := by
      by_cases hva : v = a
      · exact ⟨w, hva ▸ hvw.symm, (hcomp w).mp (by simp)⟩
      · exact ⟨v, hva, (hcomp v).mp List.mem_cons_self⟩
    simp [Looped, hb]

theorem leastLabel_mem (u : Nat) (c : List Nat) :
    g.leastLabel (u :: c) ∈ (u :: c).map g.label ∧
      ∀ x ∈ (u :: c).map g.label, g.leastLabel (u :: c) ≤ x := by
  have h : ((u :: c).map g.label).min? = some (g.leastLabel (u :: c)) := by
    rw [List.map_cons, List.min?_cons', leastLabel, List.map_cons, List.headD_cons, List.foldl_cons,
      Nat.min_self]
  exact List.min?_eq_some_iff.mp h

-- Of two disjoint lists of nodes, the first of least label not above the second's, the node of
-- least label of the first has a label below all of the second.
theorem exists_label_lt (hd : g.Distinct) (hne : c ≠ []) (hne' : c' ≠ [])
    (hlt : ∀ u ∈ c ++ c', u < g.size) (hdj : c.Disjoint c') (hle : g.leastLabel c ≤ g.leastLabel c') :
    ∃ u ∈ c, ∀ u' ∈ c', g.label u < g.label u' := by
  obtain ⟨u₀, t, rfl⟩ := List.exists_cons_of_ne_nil hne
  obtain ⟨u₁, t', rfl⟩ := List.exists_cons_of_ne_nil hne'
  obtain ⟨hmem, -⟩ := leastLabel_mem (g := g) u₀ t
  obtain ⟨u, hu, hlab⟩ := List.mem_map.mp hmem
  refine ⟨u, hu, fun u' hu' => ?_⟩
  have hle' : g.label u ≤ g.label u' :=
    hlab ▸ Nat.le_trans hle ((leastLabel_mem u₁ t').2 _ (List.mem_map_of_mem hu'))
  -- distinct nodes carry distinct labels
  have hne : g.label u ≠ g.label u' := fun h => hdj hu
    (hd.label_inj (hlt u (List.mem_append_left _ hu)) (hlt u' (List.mem_append_right _ hu')) h ▸ hu')
  omega

-- Of any lists that are the strongly connected components, the cycles are those whose nodes lie
-- on a cycle, each once with its nodes once, ordered by their least labels.
theorem cyclesOf_spec (hc : g.Closed) (hd : g.Distinct) (hcomps : g.StrongComponents comps) :
    ∃ cs : List (List Nat), g.cyclesOf comps = cs.map (·.map g.label) ∧ cs.Pairwise List.Disjoint ∧
      (∀ c ∈ cs, c.Nodup ∧ (∀ u ∈ c, u < g.size) ∧
        ∃ a, (∀ u, u ∈ c ↔ Strong g.Adj a u) ∧ TransGen g.Adj a a) ∧
      (∀ a, TransGen g.Adj a a → ∃ c ∈ cs, a ∈ c) ∧
      cs.Pairwise fun c c' => ∃ u ∈ c, ∀ u' ∈ c', g.label u < g.label u' := by
  obtain ⟨hdisj, hcomp, hcov⟩ := hcomps
  have hperm := List.mergeSort_perm (comps.filter g.Looped)
    fun a b => decide (g.leastLabel a ≤ g.leastLabel b)
  have hsorted : ((comps.filter g.Looped).mergeSort fun a b =>
      decide (g.leastLabel a ≤ g.leastLabel b)).Pairwise
        fun a b => decide (g.leastLabel a ≤ g.leastLabel b) = true :=
    List.pairwise_mergeSort (fun _ _ _ h₁ h₂ => by simp at *; omega) (fun _ _ => by simp; omega) _
  have hdisj' := (hdisj.filter g.Looped).perm hperm.symm fun h => h.symm
  have hkept : ∀ c ∈ (comps.filter g.Looped).mergeSort fun a b =>
      decide (g.leastLabel a ≤ g.leastLabel b), c.Nodup ∧ (∀ u ∈ c, u < g.size) ∧
        ∃ a, (∀ u, u ∈ c ↔ Strong g.Adj a u) ∧ TransGen g.Adj a a := by
    intro c hc'
    obtain ⟨hcc, hlooped⟩ := List.mem_filter.mp (hperm.mem_iff.mp hc')
    obtain ⟨hnd, a, ha, hca⟩ := hcomp c hcc
    exact ⟨hnd, fun u hu => hc.reach_lt ((hca u).mp hu).1 ha, a, hca,
      (looped_iff hnd hca).mp hlooped⟩
  refine ⟨_, cyclesOf_eq, hdisj', hkept, fun a haa => ?_, ?_⟩
  · -- the component of a node on a cycle is kept
    obtain ⟨c, hcc, hac⟩ := hcov a (hc.transGen_left haa)
    obtain ⟨hnd, b, -, hcb⟩ := hcomp c hcc
    have hba := (hcb a).mp hac
    have hbb : TransGen g.Adj b b := (TransGen.trans_right hba.1 haa).trans_left hba.2
    exact ⟨c, hperm.mem_iff.mpr (List.mem_filter.mpr ⟨hcc, (looped_iff hnd hcb).mpr hbb⟩), hac⟩
  · refine (hsorted.and hdisj').imp_of_mem fun hc₁ hc₂ ⟨hle, hdj⟩ => ?_
    obtain ⟨-, hlt₁, a₁, hca₁, -⟩ := hkept _ hc₁
    obtain ⟨-, hlt₂, a₂, hca₂, -⟩ := hkept _ hc₂
    exact exists_label_lt hd (List.ne_nil_of_mem ((hca₁ a₁).mpr (.refl a₁)))
      (List.ne_nil_of_mem ((hca₂ a₂).mpr (.refl a₂)))
      (fun u hu => (List.mem_append.mp hu).elim (hlt₁ u) (hlt₂ u)) hdj (by simpa using hle)

end ContractDeploy.Graph
