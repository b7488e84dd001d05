import ContractDeploy.Proofs.Graph.Search
import Mathlib.Algebra.BigOperators.Group.Finset.Piecewise

namespace ContractDeploy

namespace Precedes

variable {l m l₁ l₂ : List Nat} {a b : Nat}

theorem append_left (h : Precedes l a b) (m : List Nat) : Precedes (m ++ l) a b := by
  obtain ⟨k₁, k₂, rfl, ha, hb⟩ := h
  exact ⟨m ++ k₁, k₂, by simp, List.mem_append_right _ ha, hb⟩

theorem append_right (h : Precedes l a b) (m : List Nat) : Precedes (l ++ m) a b := by
  obtain ⟨k₁, k₂, rfl, ha, hb⟩ := h
  exact ⟨k₁, k₂ ++ m, by simp, ha, List.mem_append_left _ hb⟩

theorem mem_of_eq (hl : l.Nodup) (h : Precedes l a b) (he : l = l₁ ++ a :: l₂) : b ∈ l₂ := by
  obtain ⟨k₁, k₂, hk, ha, hb⟩ := h
  rcases List.append_eq_append_iff.mp (hk.symm.trans he) with ⟨t, rfl, ht⟩ | ⟨t, rfl, ht⟩
  · -- `k₁` ends before `a`, which would stand in both halves
    exact (List.disjoint_of_nodup_append (hk ▸ hl) ha (by rw [ht]; simp)).elim
  · cases t with
    | nil =>
      simp only [List.nil_append] at ht
      exact (List.disjoint_of_nodup_append (hk ▸ hl) ha (ht ▸ List.mem_cons_self)).elim
    | cons x t =>
      simp only [List.cons_append, List.cons.injEq] at ht
      obtain ⟨rfl, rfl⟩ := ht
      exact List.mem_append_right _ hb

end Precedes

namespace Graph

open Relation

variable {g : Graph} {next : Array (List Nat)} {G : Nat → Prop} {s s' : Array Bool}
  {ws F : List Nat} {x y : Nat}

theorem exists_exit {rel : Nat → Nat → Prop} {P : Nat → Prop} {a b : Nat}
    (h : ReflTransGen rel a b) (ha : P a) (hb : ¬P b) :
    ∃ p q, ReflTransGen rel a p ∧ P p ∧ rel p q ∧ ¬P q := by
  induction h
  case refl => exact absurd ha hb
  case tail c d hac hcd ih =>
    by_cases hc : P c
    · exact ⟨c, d, hac, hc, hcd, hb⟩
    · exact ih hc

-- The marks around a walk of the first pass: a marked node not open (in `G`) is closed, all its
-- edges leading to marked nodes; an open node is marked and reaches each node left in the list.
structure Frontier (next : Array (List Nat)) (G : Nat → Prop) (s : Array Bool) (ws : List Nat) :
    Prop where
  closed : ∀ z, Marked s z → ¬G z → ∀ z', Arc next z z' → Marked s z'
  marked_open : ∀ z, G z → Marked s z
  open_reach : ∀ z, G z → ∀ w ∈ ws, ReflTransGen (Arc next) z w

namespace Frontier

variable {w : Nat} {s₁ : Array Bool} {F₁ : List Nat}

theorem tail (hf : Frontier next G s (w :: ws)) : Frontier next G s ws :=
  ⟨hf.closed, hf.marked_open, fun z hz w' hw' => hf.open_reach z hz w' (List.mem_cons_of_mem _ hw')⟩

theorem push (hf : Frontier next G s (w :: ws)) :
    Frontier next (fun z => G z ∨ z = w) (s.setIfInBounds w true) (next[w]?.getD []) := by
  refine ⟨fun z hz hzG z' hzz' => ?_, ?_, ?_⟩
  · have hzs : Marked s z := (marked_setIfInBounds.mp hz).resolve_left fun h => hzG (.inr h)
    exact marked_setIfInBounds.mpr (.inr (hf.closed z hzs (fun h => hzG (.inl h)) z' hzz'))
  · rintro z (hz | rfl)
    · exact marked_setIfInBounds.mpr (.inr (hf.marked_open z hz))
    · exact marked_setIfInBounds.mpr (.inl rfl)
  · rintro z (hz | rfl) w' hw'
    · exact (hf.open_reach z hz w List.mem_cons_self).tail hw'
    · exact .single hw'

variable (hf : Frontier next G s (w :: ws))
  (h₁ : Walk next (s.setIfInBounds w true) (next[w]?.getD []) s₁ F₁)
include hf h₁

theorem pop : Frontier next G s₁ ws := by
  refine ⟨fun z hz hzG z' hzz' => ?_, fun z hz => ?_, hf.tail.open_reach⟩
  · by_cases hzs : Marked s z
    · exact h₁.mono (marked_setIfInBounds.mpr (.inr (hf.closed z hzs hzG z' hzz')))
    · exact (h₁.visit_new hz hzs).2.2 z' hzz'
  · exact h₁.mono (marked_setIfInBounds.mpr (.inr (hf.marked_open z hz)))

theorem leave {c z : Nat} (hc : Marked s₁ c) (hcz : ReflTransGen (Arc next) c z)
    (hz : ¬Marked s₁ z) : ∃ p, G p ∧ ReflTransGen (Arc next) c p := by
  obtain ⟨p, q, hcp, hp, hpq, hq⟩ := exists_exit hcz hc hz
  refine ⟨p, ?_, hcp⟩
  by_contra hpG
  by_cases hps : Marked s p
  · exact hq (h₁.mono (marked_setIfInBounds.mpr (.inr (hf.closed p hps hpG q hpq))))
  · exact hq ((h₁.visit_new hp hps).2.2 q hpq)

end Frontier

-- The first pass of the component search, one walk at a time. Where `x` reaches `y`, `y` does
-- not reach back, the walk closes `y` and nothing strongly connected to `x` or `y` is marked at
-- the start, a node strongly connected to `x` closes after `y`, or is not marked at the end.
theorem Walk.finish_after (h : Walk next s ws s' F) (hf : Frontier next G s ws)
    (hxy : ReflTransGen (Arc next) x y) (hyx : ¬ReflTransGen (Arc next) y x) (hy : y ∈ F)
    (hfresh : ∀ c, Strong (Arc next) x c ∨ Strong (Arc next) y c → ¬Marked s c) :
    ∃ x', Strong (Arc next) x x' ∧ (Precedes F y x' ∨ ¬Marked s' x') := by
  induction h generalizing G with
  | nil => cases hy
  | seen _ _ ih => exact ih hf.tail hy hfresh
  | @visit s s₁ s₂ w ws F₁ F₂ hw h₁ h₂ ih₁ ih₂ =>
    have hnew : ∀ c, Marked s₁ c → ¬Marked s c → ReflTransGen (Arc next) w c :=
      fun c hc hc' => (h₁.visit_new hc hc').2.1
    -- a node `s₁` leaves unmarked closes after the search from `w`, if at all
    have hlate : ∀ z ∈ F₁ ++ [w], ∀ u, ¬Marked s₁ u →
        Precedes (F₁ ++ w :: F₂) z u ∨ ¬Marked s₂ u := by
      intro z hz u hu
      by_cases hu₂ : Marked s₂ u
      · exact .inl ⟨F₁ ++ [w], F₂, by simp, hz, h₂.mem_iff.mpr ⟨hu₂, hu⟩⟩
      · exact .inr hu₂
    rcases List.mem_append.mp hy with hy | hy
    case inl =>
      -- `y` closes within the search from `w`
      by_cases hxw : Strong (Arc next) x w
      · exact ⟨w, hxw, .inl ⟨F₁, w :: F₂, rfl, hy, List.mem_cons_self⟩⟩
      by_cases hyw : Strong (Arc next) y w
      · have hx₁ : ¬Marked s₁ x := fun hx =>
          hyx (hyw.1.trans (hnew x hx (hfresh x (.inl (.refl x)))))
        exact ⟨x, .refl x, hlate y (List.mem_append_left _ hy) x hx₁⟩
      -- neither is strongly connected to `w`, which opens on top of the open nodes
      have hfresh' : ∀ c, Strong (Arc next) x c ∨ Strong (Arc next) y c →
          ¬Marked (s.setIfInBounds w true) c := by
        intro c hc hcm
        rcases marked_setIfInBounds.mp hcm with rfl | hcm
        · exact hc.elim hxw hyw
        · exact hfresh c hc hcm
      obtain ⟨x', hx', hx''⟩ := ih₁ hf.push hy hfresh'
      refine ⟨x', hx', ?_⟩
      rcases hx'' with hp | hx₁
      · exact .inl (hp.append_right _)
      · exact hlate y (List.mem_append_left _ hy) x' hx₁
    case inr =>
      rcases List.mem_cons.mp hy with rfl | hy
      · -- `y` is `w`: it closes after all it reaches, and `x` is not among them
        have hx₁ : ¬Marked s₁ x := fun hx => hyx (hnew x hx (hfresh x (.inl (.refl x))))
        exact ⟨x, .refl x, hlate y (by simp) x hx₁⟩
      · -- `y` closes after the search from `w`, which marks nothing strongly connected to `x`
        -- or `y`: it would have left towards `y` at an open node, strongly connected to both
        have hfresh₁ : ∀ c, Strong (Arc next) x c ∨ Strong (Arc next) y c → ¬Marked s₁ c := by
          intro c hc hc₁
          have hcy : ReflTransGen (Arc next) c y := hc.elim (fun h => h.2.trans hxy) (fun h => h.2)
          obtain ⟨p, hp, hcp⟩ := hf.leave h₁ hc₁ hcy (h₂.mem_iff.mp hy).2
          have hpc : ReflTransGen (Arc next) p c :=
            (hf.open_reach p hp w List.mem_cons_self).trans (hnew c hc₁ (hfresh c hc))
          have hcp' : Strong (Arc next) c p := ⟨hcp, hpc⟩
          exact hfresh p (hc.imp (·.trans hcp') (·.trans hcp')) (hf.marked_open p hp)
        obtain ⟨x', hx', hx''⟩ := ih₂ (hf.pop h₁) hy hfresh₁
        exact ⟨x', hx', hx''.imp (fun hp => by simpa using hp.append_left (F₁ ++ [w])) id⟩

section Passes

variable (g)

theorem arc_successors (hc : g.Closed) : Arc g.successors = g.Adj := by
  funext a b
  apply propext
  by_cases ha : a < g.size
  · exact mem_successors ha
  · have hnone : g.successors[a]? = none := Array.getElem?_eq_none (by simp; omega)
    simp only [Arc, hnone, Option.getD_none, List.not_mem_nil, false_iff]
    exact fun hab => ha (hc.left hab)

theorem arc_predecessors (hc : g.Closed) : Arc g.predecessors = Function.swap g.Adj := by
  funext a b
  apply propext
  by_cases ha : a < g.size
  · exact mem_predecessors ha
  · have hnone : g.predecessors[a]? = none := Array.getElem?_eq_none (by simp; omega)
    simp only [Arc, hnone, Option.getD_none, List.not_mem_nil, false_iff, Function.swap]
    exact fun hba => ha (hc.right hba)

private theorem sum_countP_le (key : Nat × Nat → Nat) (es : List (Nat × Nat)) (n : Nat) :
    ∑ w ∈ Finset.range n, es.countP (key · == w) ≤ es.length := by
  induction es with
  | nil => simp
  | cons e es ih =>
    have hone : ∑ w ∈ Finset.range n, (if key e = w then 1 else 0) ≤ 1 := by
      rw [Finset.sum_ite_eq]
      split <;> simp
    simp only [List.countP_cons, beq_iff_eq, Finset.sum_add_distrib, List.length_cons]
    omega

-- A search along the edges of each node, or against them, has at most the nodes and the edges
-- of the graph to do.
private theorem unvisitedWork_le_of_countP (key : Nat × Nat → Nat)
    (hlen : ∀ w < g.size, (next[w]?.getD []).length = g.edges.toList.countP (key · == w))
    (t : Array Bool) (ht : t.size = g.size) : unvisitedWork next t ≤ g.size + g.edges.size := by
  have hsum : ∑ w ∈ Finset.range t.size, (next[w]?.getD []).length ≤ g.edges.size := by
    rw [Finset.sum_congr rfl fun w hw => hlen w (ht ▸ Finset.mem_range.mp hw), ← Array.length_toList]
    exact sum_countP_le key _ _
  have hle : unvisitedWork next t ≤ _ := unvisitedWork_le_sum
  omega

theorem unvisitedWork_successors (t : Array Bool) (ht : t.size = g.size) :
    unvisitedWork g.successors t ≤ g.size + g.edges.size :=
  unvisitedWork_le_of_countP g (·.1) (fun w hw => by
    rw [successors_eq hw, List.length_reverse, List.length_map, List.countP_eq_length_filter]) t ht

theorem unvisitedWork_predecessors (t : Array Bool) (ht : t.size = g.size) :
    unvisitedWork g.predecessors t ≤ g.size + g.edges.size :=
  unvisitedWork_le_of_countP g (·.2) (fun w hw => by
    rw [predecessors_eq hw, List.length_reverse, List.length_map, List.countP_eq_length_filter]) t ht

variable {g}

theorem Walk.foldl_searchFrom {vs : List Nat} (h : Walk next s vs s' F) (hs : s.size = g.size)
    (hwork : ∀ t : Array Bool, t.size = g.size → unvisitedWork next t ≤ g.size + g.edges.size)
    (done : List Nat) :
    vs.foldl (fun st v => if st.1[v]?.getD true then st else g.searchFrom next v st.1 st.2)
      (s, done) = (s', F.reverse ++ done) := by
  induction h generalizing done with
  | nil => rfl
  | @seen s s' w ws F hw _ ih =>
    rw [List.foldl_cons, if_pos (show s[w]?.getD true = true from hw)]
    exact ih hs done
  | @visit s s₁ s₂ w ws F₁ F₂ hw h₁ _ _ ih₂ =>
    rw [List.foldl_cons, if_neg (show ¬s[w]?.getD true = true from hw),
      h₁.searchFrom hw (hwork s hs),
      ih₂ (by rw [h₁.size, Array.size_setIfInBounds, hs])]
    simp

variable (g)

theorem finishOrder_walk :
    ∃ s, Walk g.successors (Array.replicate g.size false) (List.range g.size) s g.finishOrder := by
  obtain ⟨s, F, h⟩ := Walk.exists_walk g.successors (Array.replicate g.size false)
    (List.range g.size)
  have hfold := h.foldl_searchFrom (by simp) (unvisitedWork_successors g) []
  refine ⟨s, ?_⟩
  simp only [finishOrder, hfold, List.append_nil, List.reverse_reverse]
  exact h

theorem finishOrder_perm : g.finishOrder.Perm (List.range g.size) := by
  obtain ⟨s, h⟩ := finishOrder_walk g
  refine (List.perm_ext_iff_of_nodup h.nodup List.nodup_range).mpr fun u => ?_
  rw [h.mem_iff, marked_replicate, List.mem_range, Nat.not_le]
  exact ⟨fun hu => hu.2, fun hu => ⟨h.marked_of_mem (List.mem_range.mpr hu), hu⟩⟩

variable {g}

theorem Closed.reach_lt (hc : g.Closed) (h : ReflTransGen g.Adj x y) (hx : x < g.size) :
    y < g.size := by
  induction h
  case refl => exact hx
  case tail hab _ => exact hc.right hab

-- Where `x` reaches `y` but `y` does not reach back, a node strongly connected to `x` finishes
-- after `y`.
theorem finishOrder_after (hc : g.Closed) (hxy : ReflTransGen g.Adj x y)
    (hyx : ¬ReflTransGen g.Adj y x) (hx : x < g.size) :
    ∃ x', Strong g.Adj x x' ∧ Precedes g.finishOrder y x' := by
  obtain ⟨s, h⟩ := finishOrder_walk g
  have hy : y ∈ g.finishOrder :=
    (finishOrder_perm g).mem_iff.mpr (List.mem_range.mpr (hc.reach_lt hxy hx))
  -- no node is open, and past the nodes there are no edges
  have hf : Frontier g.successors (fun _ => False) (Array.replicate g.size false)
      (List.range g.size) := by
    refine ⟨fun z hz _ z' hzz' => ?_, fun _ hz => hz.elim, fun _ hz => hz.elim⟩
    rw [arc_successors g hc] at hzz'
    exact absurd (hc.left hzz') (Nat.not_lt.mpr (marked_replicate.mp hz))
  have hfresh : ∀ c, Strong g.Adj x c ∨ Strong g.Adj y c →
      ¬Marked (Array.replicate g.size false) c := by
    rintro c (hc' | hc') hm
    · exact absurd (hc.reach_lt hc'.1 hx) (Nat.not_lt.mpr (marked_replicate.mp hm))
    · exact absurd (hc.reach_lt (hxy.trans hc'.1) hx) (Nat.not_lt.mpr (marked_replicate.mp hm))
  rw [← arc_successors g hc] at hxy hyx hfresh ⊢
  obtain ⟨x', hx', hp | hm⟩ := h.finish_after hf hxy hyx hy hfresh
  · exact ⟨x', hx', hp⟩
  · rw [arc_successors g hc] at hx'
    exact absurd (h.marked_of_mem (List.mem_range.mpr (hc.reach_lt hx'.1 hx))) hm

-- Lists of nodes that are the strongly connected components, each once with its nodes once, as
-- the graph library's component search gives them, in an order of its own.
structure StrongComponents (g : Graph) (comps : List (List Nat)) : Prop where
  disjoint : comps.Pairwise List.Disjoint
  component : ∀ c ∈ comps, c.Nodup ∧ ∃ a < g.size, ∀ u, u ∈ c ↔ Strong g.Adj a u
  covers : ∀ u < g.size, ∃ c ∈ comps, u ∈ c

-- The second pass after the nodes `pre` of the reverse finish order: the marks are closed under
-- strong connection, and `comps` lists the components of the marked nodes, each once with its
-- nodes once.
structure Collected (g : Graph) (pre : List Nat) (seen : Array Bool) (comps : List (List Nat)) :
    Prop where
  size : seen.size = g.size
  marked_pre : ∀ u ∈ pre, Marked seen u
  closed : ∀ u u', Marked seen u → Strong g.Adj u u' → Marked seen u'
  marked_comp : ∀ c ∈ comps, ∀ u ∈ c, Marked seen u
  covered : ∀ u < g.size, Marked seen u → ∃ c ∈ comps, u ∈ c
  component : ∀ c ∈ comps, c.Nodup ∧ ∃ a < g.size, ∀ u, u ∈ c ↔ Strong g.Adj a u
  disjoint : comps.Pairwise List.Disjoint

namespace Collected

variable {pre suf c : List Nat} {seen seen' : Array Bool} {comps : List (List Nat)} {v : Nat}

theorem start (hc : g.Closed) : g.Collected [] (Array.replicate g.size false) [] := by
  refine ⟨by simp, by simp, fun u u' hu huu' => ?_, by simp, fun u hu hm => ?_, by simp, .nil⟩
  · -- past the nodes there are no edges
    rcases huu'.1.cases_head with rfl | ⟨z, huz, -⟩
    · exact hu
    · exact absurd (hc.left huz) (Nat.not_lt.mpr (marked_replicate.mp hu))
  · exact absurd hu (Nat.not_lt.mpr (marked_replicate.mp hm))

theorem skip (hs : g.Collected pre seen comps) (hv : Marked seen v) :
    g.Collected (pre ++ [v]) seen comps := by
  refine ⟨hs.size, fun u hu => ?_, hs.closed, hs.marked_comp, hs.covered, hs.component, hs.disjoint⟩
  rcases List.mem_append.mp hu with hu | hu
  · exact hs.marked_pre u hu
  · exact List.mem_singleton.mp hu ▸ hv

variable (hc : g.Closed) (hs : g.Collected pre seen comps)
  (hfin : g.finishOrder.reverse = pre ++ v :: suf) (hv : ¬Marked seen v)
  (h : Walk g.predecessors (seen.setIfInBounds v true) (g.predecessors[v]?.getD []) seen' F)
include hc hs hfin hv h

-- The search against the edges from the first unmarked node `v` newly marks exactly the nodes
-- strongly connected to `v`. One that `v` did not reach would reach a component finished after
-- `v`, taken before it and marked with all it reaches.
theorem visit_iff (u : Nat) : Marked seen' u ∧ ¬Marked seen u ↔ Strong g.Adj v u := by
  have hfresh : ∀ x, Strong g.Adj v x → ¬Marked seen x :=
    fun x hx hm => hv (hs.closed x v hm hx.symm)
  constructor
  · rintro ⟨hu', hu⟩
    have hvu : ReflTransGen (Arc g.predecessors) v u := (h.visit_new hu' hu).2.1
    rw [arc_predecessors g hc, reflTransGen_swap] at hvu
    refine ⟨?_, hvu⟩
    by_contra hback
    obtain ⟨u', hu'', hp⟩ := finishOrder_after hc hvu hback (hs.size ▸ lt_size_of_not_marked hu)
    have hfin' : g.finishOrder = suf.reverse ++ v :: pre.reverse := by
      rw [← List.reverse_reverse g.finishOrder, hfin]
      simp
    have hpre : u' ∈ pre := List.mem_reverse.mp
      (hp.mem_of_eq ((finishOrder_perm g).nodup_iff.mpr List.nodup_range) hfin')
    exact hu (hs.closed u' u (hs.marked_pre u' hpre) hu''.symm)
  · intro hvu
    -- the way back from `u` to `v` runs through nodes strongly connected to `v`, all unmarked
    have hpath : ∀ x, ReflTransGen g.Adj x v → ReflTransGen g.Adj v x →
        ReflTransGen (fun a b => Arc g.predecessors a b ∧ ¬Marked seen b) v x := by
      intro x hxv
      induction hxv using ReflTransGen.head_induction_on with
      | refl => exact fun _ => .refl
      | head hxx₁ hx₁v ih =>
        intro hvx
        refine (ih (hvx.tail hxx₁)).tail ⟨?_, hfresh _ ⟨hvx, .head hxx₁ hx₁v⟩⟩
        rw [arc_predecessors g hc]
        exact hxx₁
    exact h.visit_reach hv (hpath u hvu.2 hvu.1)

-- One step of the second pass: the component of `v`, in any order, joins the others.
theorem visit {c : List Nat} (hperm : c.Perm (v :: F.reverse)) :
    g.Collected (pre ++ [v]) seen' (c :: comps) := by
  have hiff := hs.visit_iff hc hfin hv h
  have hmem : ∀ u, u ∈ c ↔ Marked seen' u ∧ ¬Marked seen u := fun u => by
    rw [hperm.mem_iff, List.mem_cons, List.mem_reverse, h.visit_mem_iff hv]
  have hmono : ∀ u, Marked seen u → Marked seen' u :=
    fun u hu => h.mono (marked_setIfInBounds.mpr (.inr hu))
  refine ⟨?size, ?marked_pre, ?closed, ?marked_comp, ?covered, ?component, ?disjoint⟩
  case size => rw [h.size, Array.size_setIfInBounds, hs.size]
  case marked_pre =>
    intro u hu
    rcases List.mem_append.mp hu with hu | hu
    · exact hmono u (hs.marked_pre u hu)
    · rw [List.mem_singleton.mp hu]
      exact ((hmem v).mp (hperm.mem_iff.mpr List.mem_cons_self)).1
  case closed =>
    intro u u' hu huu'
    by_cases hu₀ : Marked seen u
    · exact hmono u' (hs.closed u u' hu₀ huu')
    · exact ((hiff u').mpr (((hiff u).mp ⟨hu, hu₀⟩).trans huu')).1
  case marked_comp =>
    intro c' hc' u hu
    rcases List.mem_cons.mp hc' with rfl | hc'
    · exact ((hmem u).mp hu).1
    · exact hmono u (hs.marked_comp c' hc' u hu)
  case covered =>
    intro u hu hm
    by_cases hu₀ : Marked seen u
    · obtain ⟨c', hc', huc'⟩ := hs.covered u hu hu₀
      exact ⟨c', List.mem_cons_of_mem _ hc', huc'⟩
    · exact ⟨c, List.mem_cons_self, (hmem u).mpr ⟨hm, hu₀⟩⟩
  case component =>
    intro c' hc'
    rcases List.mem_cons.mp hc' with rfl | hc'
    · refine ⟨hperm.nodup_iff.mpr (List.nodup_cons.mpr ⟨fun hvF => ?_,
        List.nodup_reverse.mpr h.nodup⟩), v, hs.size ▸ lt_size_of_not_marked hv,
        fun u => (hmem u).trans (hiff u)⟩
      exact (h.mem_iff.mp (List.mem_reverse.mp hvF)).2 (marked_setIfInBounds.mpr (.inl rfl))
    · exact hs.component c' hc'
  case disjoint =>
    refine List.Pairwise.cons (fun c' hc' => ?_) hs.disjoint
    intro u hu hu'
    exact ((hmem u).mp hu).2 (hs.marked_comp c' hc' u hu')

end Collected

theorem Collected.foldl (hc : g.Closed)
    {f : Array Bool × List (List Nat) → Nat → Array Bool × List (List Nat)}
    (hf₁ : ∀ seen comps v, Marked seen v → f (seen, comps) v = (seen, comps))
    (hf₂ : ∀ seen comps v, ¬Marked seen v → ∃ c, f (seen, comps) v =
      ((g.searchFrom g.predecessors v seen []).1, c :: comps) ∧
        c.Perm (g.searchFrom g.predecessors v seen []).2)
    (suf pre : List Nat) (st : Array Bool × List (List Nat))
    (hfin : g.finishOrder.reverse = pre ++ suf) (hs : g.Collected pre st.1 st.2) :
    g.Collected g.finishOrder.reverse (suf.foldl f st).1 (suf.foldl f st).2 := by
  induction suf generalizing pre st with
  | nil => simpa [hfin] using hs
  | cons v suf ih =>
    obtain ⟨seen, comps⟩ := st
    rw [List.foldl_cons]
    refine ih (pre ++ [v]) _ (by simp [hfin]) ?_
    by_cases hv : Marked seen v
    · rw [hf₁ seen comps v hv]
      exact hs.skip hv
    · obtain ⟨seen', F, h⟩ := Walk.exists_walk g.predecessors (seen.setIfInBounds v true)
        (g.predecessors[v]?.getD [])
      have hrun : g.searchFrom g.predecessors v seen [] = (seen', v :: F.reverse ++ []) :=
        h.searchFrom hv (unvisitedWork_predecessors g seen hs.size)
      obtain ⟨c, hf, hperm⟩ := hf₂ seen comps v hv
      rw [hrun, List.append_nil] at hf hperm
      rw [hf]
      exact hs.visit hc hfin hv h hperm

-- At the end of the second pass every node is marked, so the components cover the graph.
theorem Collected.spec {seen : Array Bool} {comps : List (List Nat)}
    (hs : g.Collected g.finishOrder.reverse seen comps) : g.StrongComponents comps := by
  refine ⟨hs.disjoint, hs.component, fun u hu => hs.covered u hu (hs.marked_pre u ?_)⟩
  exact List.mem_reverse.mpr ((finishOrder_perm g).mem_iff.mpr (List.mem_range.mpr hu))

variable (g)

theorem components_eq : g.components = (g.finishOrder.reverse.foldl (fun st v =>
    if Marked st.1 v then st
    else ((g.searchFrom g.predecessors v st.1 []).1,
      ((g.searchFrom g.predecessors v st.1 []).2.mergeSort fun a b =>
        (ranks g.size g.finishOrder)[a]?.getD 0 ≤ (ranks g.size g.finishOrder)[b]?.getD 0) :: st.2))
    (Array.replicate g.size false, [])).2 := rfl

variable {g}

theorem components_spec (hc : g.Closed) : g.StrongComponents g.components := by
  rw [components_eq]
  refine Collected.spec (Collected.foldl hc ?_ ?_ _ [] (Array.replicate g.size false, []) rfl
    (Collected.start hc))
  · intro seen comps v hv
    exact if_pos hv
  · intro seen comps v hv
    exact ⟨_, if_neg hv, List.mergeSort_perm _ _⟩

end Passes

end Graph

end ContractDeploy
