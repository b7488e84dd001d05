import ContractDeploy.Proofs.Registry.Steps
import Mathlib.Data.List.Nodup

namespace ContractDeploy.Registry

-- What every reachable registry satisfies. Contracts are numbered by position and registered
-- at distinct locations, the order lists each number once, and the entries of a contract name
-- locations it imports: a dependency entry the contract registered there, an alias entry the
-- configured alias of a location with no dependency entry.
structure Wf (r : Registry) : Prop where
  id_eq : ∀ i (h : i < r.contracts.length), r.contracts[i].id = i
  locations_nodup : (r.contracts.map (·.location)).Nodup
  order_perm : r.order.Perm (List.range r.contracts.length)
  dependencyEntry : ∀ c ∈ r.contracts, ∀ L d, (L, d) ∈ c.dependencies.toList →
    L ∈ c.locations ∧ ∃ h : d.id < r.contracts.length, r.contracts[d.id].location = L ∧
      d.name = r.contracts[d.id].name ∧ d.target = r.contracts[d.id].target
  aliasEntry : ∀ c ∈ r.contracts, ∀ L a, (L, a) ∈ c.aliases.toList →
    L ∈ c.locations ∧ L ∉ c.dependencies.keys ∧ r.aliases.find? L = some a

-- `r'` keeps every contract of `r` as it was added, and the alias table.
structure Extends (r r' : Registry) : Prop where
  length_le : r.contracts.length ≤ r'.contracts.length
  keeps : ∀ i (h : i < r.contracts.length) (h' : i < r'.contracts.length),
    r.contracts[i].Keeps r'.contracts[i]
  aliases : r'.aliases = r.aliases

theorem Extends.refl (r : Registry) : r.Extends r :=
  ⟨Nat.le_refl _, fun _ _ _ => .refl _, rfl⟩

theorem Extends.trans (h₁ : Extends r₁ r₂) (h₂ : Extends r₂ r₃) : Extends r₁ r₃ :=
  ⟨Nat.le_trans h₁.length_le h₂.length_le,
    fun i h h' => (h₁.keeps i h (by have := h₁.length_le; omega)).trans
      (h₂.keeps i (by have := h₁.length_le; omega) h'),
    h₂.aliases.trans h₁.aliases⟩

variable {r r' : Registry}

namespace Wf

theorem exclusive (hw : r.Wf) (hc : c ∈ r.contracts) : c.Exclusive :=
  fun L a ha => (hw.aliasEntry c hc L a ha).2.1

theorem getElem?_id (hw : r.Wf) (hc : c ∈ r.contracts) : r.contracts[c.id]? = some c := by
  have ⟨i, hi, he⟩ := List.getElem_of_mem hc
  rw [← he, hw.id_eq i hi]
  exact List.getElem?_eq_getElem hi

theorem id_lt (hw : r.Wf) (hc : c ∈ r.contracts) : c.id < r.contracts.length :=
  (List.getElem?_eq_some_iff.mp (hw.getElem?_id hc)).1

theorem getElem_id (hw : r.Wf) (hc : c ∈ r.contracts) (h : c.id < r.contracts.length) :
    r.contracts[c.id] = c :=
  (List.getElem?_eq_some_iff.mp (hw.getElem?_id hc)).2

theorem ids_eq (hw : r.Wf) : r.contracts.map (·.id) = List.range r.contracts.length :=
  List.ext_getElem (by simp) fun i h₁ h₂ => by simp [hw.id_eq i (by simpa using h₁)]

theorem order_lt (hw : r.Wf) (hi : i ∈ r.order) : i < r.contracts.length :=
  List.mem_range.mp (hw.order_perm.mem_iff.mp hi)

theorem ordered_ids (hw : r.Wf) : r.ordered.map (·.id) = r.order := by
  rw [ordered, List.map_filterMap]
  calc r.order.filterMap (fun i => (r.get? i).map (·.id))
      _ = r.order.filterMap some := List.filterMap_congr fun i hi => by
        simp [get?, List.getElem?_eq_getElem (hw.order_lt hi), hw.id_eq i (hw.order_lt hi)]
      _ = r.order := List.filterMap_some

theorem ordered_perm (hw : r.Wf) : r.ordered.Perm r.contracts := by
  have hnd : r.contracts.Nodup := List.Nodup.of_map (·.id) (hw.ids_eq ▸ List.nodup_range)
  have hnd' : r.ordered.Nodup :=
    List.Nodup.of_map (·.id) (hw.ordered_ids ▸ hw.order_perm.nodup_iff.mpr List.nodup_range)
  refine (List.perm_ext_iff_of_nodup hnd' hnd).mpr fun c => ?_
  simp only [ordered, List.mem_filterMap, get?]
  constructor
  · rintro ⟨i, -, hi⟩
    exact List.mem_of_getElem? hi
  · intro hc
    exact ⟨c.id, hw.order_perm.mem_iff.mpr (List.mem_range.mpr (hw.id_lt hc)), hw.getElem?_id hc⟩

theorem withOrder (hw : r.Wf) (ho : o.Perm (List.range r.contracts.length)) :
    { r with order := o }.Wf :=
  ⟨hw.id_eq, hw.locations_nodup, ho, hw.dependencyEntry, hw.aliasEntry⟩

theorem contractAt?_eq_some_iff (hw : r.Wf) :
    r.contractAt? L = some c ↔ c ∈ r.contracts ∧ c.location = L := by
  constructor
  · exact contractAt?_eq_some
  · rintro ⟨hc, rfl⟩
    cases hf : r.contractAt? c.location
    case none => exact absurd rfl (contractAt?_eq_none.mp hf c hc)
    case some c' =>
      have ⟨hc', hl⟩ := contractAt?_eq_some hf
      rw [List.inj_on_of_nodup_map hw.locations_nodup hc' hc hl]

end Wf

theorem ofConfig_eq_ok (h : ofConfig cfg = .ok r) : cfg.addresses = .ok r.aliases ∧
    r.substitution = cfg.substitution ∧ r.contracts = [] ∧ r.order = [] := by
  cases ha : cfg.addresses with
  | error e => simp [ofConfig, ha, bind, Except.bind] at h
  | ok t =>
    simp only [ofConfig, ha, bind, Except.bind, pure, Except.pure, Except.ok.injEq] at h
    subst h
    exact ⟨rfl, rfl, rfl, rfl⟩

theorem wf_ofConfig (h : ofConfig cfg = .ok r) : r.Wf := by
  obtain ⟨-, -, hc, ho⟩ := ofConfig_eq_ok h
  exact ⟨by simp [hc], by simp [hc], by simp [hc, ho], by simp [hc], by simp [hc]⟩

theorem extends_add {sources : Sources} (h : r.add sources loc tgt acct args = .ok (c, r')) :
    r.Extends r' := by
  obtain ⟨-, -, rfl⟩ := add_eq_ok h
  refine ⟨by simp, fun i hi _ => ?_, rfl⟩
  simp only [List.getElem_append_left hi]
  exact .refl _

theorem Wf.add {sources : Sources} (hw : r.Wf) (h : r.add sources loc tgt acct args = .ok (c, r')) :
    r'.Wf := by
  obtain ⟨hloc, ⟨bytes, code, -, -, hm⟩, rfl⟩ := add_eq_ok h
  obtain ⟨p, -, -, rfl⟩ := Contract.make_eq_ok hm
  have hnew : ∀ c' ∈ r.contracts, c'.location ≠ loc := contractAt?_eq_none.mp hloc
  refine ⟨?_, ?_, ?_, ?_, ?_⟩
  case refine_1 =>
    intro i hi
    by_cases hi' : i < r.contracts.length
    · simp [List.getElem_append_left hi', hw.id_eq i hi']
    · have : i = r.contracts.length := by simp at hi; omega
      subst this
      simp [size]
  case refine_2 =>
    simp only [List.map_append, List.map_cons, List.map_nil]
    exact List.nodup_append.mpr ⟨hw.locations_nodup, List.nodup_singleton _, by
      simpa using fun c' hc' => hnew c' hc'⟩
  case refine_3 =>
    simpa [size, List.range_succ] using hw.order_perm.append_right [r.contracts.length]
  case refine_4 =>
    -- the old entries name old contracts, which keep their positions
    intro c' hc' L d hd
    rcases List.mem_append.mp hc' with hc' | hc'
    · have ⟨hL, hlt, hl, hn, ht⟩ := hw.dependencyEntry c' hc' L d hd
      refine ⟨hL, by simp; omega, ?_⟩
      simp only [List.getElem_append_left hlt]
      exact ⟨hl, hn, ht⟩
    · simp only [List.mem_singleton] at hc'
      subst hc'
      simp at hd
  case refine_5 =>
    intro c' hc' L a ha
    rcases List.mem_append.mp hc' with hc' | hc'
    · exact hw.aliasEntry c' hc' L a ha
    · simp only [List.mem_singleton] at hc'
      subst hc'
      simp at ha

theorem extends_resolve (h : r.resolve = .ok r') : r.Extends r' := by
  obtain ⟨halias, -, -, -⟩ := resolve_eq_ok h
  have ⟨hlen, hres⟩ := resolve_contracts h
  refine ⟨Nat.le_of_eq hlen.symm, fun i hi hi' => ?_, halias⟩
  obtain ⟨res, -, he⟩ := hres i hi hi'
  exact he ▸ keeps_recordAll

-- Each contract after resolving is a contract of `r` with the resolutions of its imports
-- recorded.
theorem mem_resolve (h : r.resolve = .ok r') (hc' : c' ∈ r'.contracts) :
    ∃ c ∈ r.contracts, ∃ res, r.resolutionsOf c = .ok res ∧ c' = recordAll c res := by
  have ⟨hlen, hres⟩ := resolve_contracts h
  have ⟨i, hi', he⟩ := List.getElem_of_mem hc'
  have hi : i < r.contracts.length := hlen ▸ hi'
  have ⟨res, hr, he'⟩ := hres i hi hi'
  exact ⟨r.contracts[i], List.getElem_mem hi, res, hr, he ▸ he'⟩

section Resolve

variable {res : List (String × Resolution)} (hw : r.Wf) (h : r.resolve = .ok r')
  (hc : c ∈ r.contracts) (hr : r.resolutionsOf c = .ok res)
include hw h hc hr

-- A dependency entry after resolving, old or recorded, names the contract registered at its
-- location, which resolving keeps as it was.
theorem Wf.resolve_dependencyEntry (hd : (L, d) ∈ (recordAll c res).dependencies.toList) :
    L ∈ (recordAll c res).locations ∧ ∃ h : d.id < r'.contracts.length,
      r'.contracts[d.id].location = L ∧ d.name = r'.contracts[d.id].name ∧
        d.target = r'.contracts[d.id].target := by
  have hlen := (resolve_contracts h).1
  have hk := extends_resolve h
  have hkc : c.Keeps (recordAll c res) := keeps_recordAll
  rcases mem_dependencies_recordAll hd with hd | hd
  case inl =>
    have ⟨hL, hlt, hl, hn, ht⟩ := hw.dependencyEntry c hc L d hd
    have hkd := hk.keeps d.id hlt (hlen ▸ hlt)
    exact ⟨hkc.locations ▸ hL, hlen ▸ hlt, hkd.location.trans hl, hn.trans hkd.name.symm,
      ht.trans hkd.target.symm⟩
  case inr =>
    have ⟨hL, hx⟩ := mem_resolutionsOf hr hd
    rcases resolution?_eq_some.mp hx with ⟨c'', hc'', hd'⟩ | ⟨-, a, -, ha⟩
    case inr => cases ha
    case inl =>
      simp only [Resolution.dependency.injEq] at hd'
      subst hd'
      have ⟨hc''m, hc''l⟩ := contractAt?_eq_some hc''
      have hlt := hw.id_lt hc''m
      have hkd := hk.keeps c''.id hlt (hlen ▸ hlt)
      rw [hw.getElem_id hc''m hlt] at hkd
      exact ⟨hkc.locations ▸ hL, hlen ▸ hlt, hkd.location.trans hc''l, hkd.name.symm,
        hkd.target.symm⟩

-- An alias entry after resolving, old or recorded, is the configured alias of an imported
-- location with no dependency entry.
theorem Wf.resolve_aliasEntry (ha : (L, a) ∈ (recordAll c res).aliases.toList) :
    L ∈ (recordAll c res).locations ∧ L ∉ (recordAll c res).dependencies.keys ∧
      r'.aliases.find? L = some a := by
  have hkc : c.Keeps (recordAll c res) := keeps_recordAll
  refine ⟨?_, exclusive_recordAll (hw.exclusive hc) L a ha, (resolve_eq_ok h).1 ▸ ?_⟩
  all_goals rcases mem_aliases_recordAll ha with ha | ha
  · exact hkc.locations ▸ (hw.aliasEntry c hc L a ha).1
  · exact hkc.locations ▸ (mem_resolutionsOf hr ha).1
  · exact (hw.aliasEntry c hc L a ha).2.2
  · rcases resolution?_eq_some.mp (mem_resolutionsOf hr ha).2 with ⟨_, _, hd⟩ | ⟨_, a', ha', he⟩
    · cases hd
    · simp only [Resolution.alias.injEq] at he
      exact he ▸ ha'

end Resolve

theorem Wf.resolve (hw : r.Wf) (h : r.resolve = .ok r') : r'.Wf := by
  obtain ⟨-, -, horder, -⟩ := resolve_eq_ok h
  have hlen := (resolve_contracts h).1
  have hk := extends_resolve h
  refine ⟨?id_eq, ?locations_nodup, ?order_perm, ?dependencyEntry, ?aliasEntry⟩
  case id_eq =>
    intro i hi'
    rw [(hk.keeps i (hlen ▸ hi') hi').id]
    exact hw.id_eq i _
  case locations_nodup =>
    -- resolving keeps each contract's location
    have hloc : r'.contracts.map (·.location) = r.contracts.map (·.location) :=
      List.ext_getElem (by simp [hlen]) fun j h₁ h₂ => by
        simpa using (hk.keeps j (by simpa using h₂) (by simpa using h₁)).location
    rw [hloc]
    exact hw.locations_nodup
  case order_perm =>
    rw [horder, hlen]
    exact hw.order_perm
  case dependencyEntry =>
    intro c' hc' L d hd
    obtain ⟨c, hc, res, hr, rfl⟩ := mem_resolve h hc'
    exact hw.resolve_dependencyEntry h hc hr hd
  case aliasEntry =>
    intro c' hc' L a ha
    obtain ⟨c, hc, res, hr, rfl⟩ := mem_resolve h hc'
    exact hw.resolve_aliasEntry h hc hr ha

end ContractDeploy.Registry
