import ContractDeploy.Proofs.Registry.Reachable

namespace ContractDeploy

namespace Registry

variable {r r' : Registry} {cfg : Config} {c c₀ : Contract} {L name : String} {x : Resolution}
  {res : List (String × Resolution)}

section Record

theorem record_of_recorded (h : Resolution.Recorded c L x) :
    Resolution.record c L x = c := by
  rcases x with d | a
  · obtain ⟨hd, ha⟩ := h
    simp only [Resolution.record, Contract.addDependency,
      Table.erase_of_not_mem (Table.find?_eq_none_iff.mp ha),
      Table.insert_of_mem (Table.mem_of_find? hd)]
  · obtain ⟨ha, hd⟩ := h
    simp only [Resolution.record, Contract.addAlias,
      Table.erase_of_not_mem (Table.find?_eq_none_iff.mp hd),
      Table.insert_of_mem (Table.mem_of_find? ha)]

theorem recordAll_of_recorded (h : ∀ p ∈ res, Resolution.Recorded c p.1 p.2) :
    recordAll c res = c := by
  induction res
  case nil => rfl
  case cons p res ih =>
    show recordAll (Resolution.record c p.1 p.2) res = c
    rw [record_of_recorded (h p List.mem_cons_self)]
    exact ih fun q hq => h q (List.mem_cons_of_mem _ hq)

theorem recordAll_recordAll (hr : r.resolutionsOf c = .ok res) :
    recordAll (recordAll c res) res = recordAll c res := by
  refine recordAll_of_recorded fun p hp => recorded_recordAll hp fun y hy => ?_
  exact Option.some.inj ((mem_resolutionsOf hr hy).2.symm.trans (mem_resolutionsOf hr hp).2)

end Record

section ResolveAgain

theorem find?_location_keeps {cs cs' : List Contract} (hk : List.Forall₂ Contract.Keeps cs cs') :
    Option.Rel Contract.Keeps (cs.find? (·.location == L)) (cs'.find? (·.location == L)) := by
  induction hk
  case nil => exact .none
  case cons c c' cs cs' hc _ ih =>
    rw [List.find?_cons, List.find?_cons, hc.location]
    split
    · exact .some hc
    · exact ih

theorem resolution?_of_keeps (hk : List.Forall₂ Contract.Keeps r.contracts r'.contracts)
    (ha : r'.aliases = r.aliases) : r'.resolution? L = r.resolution? L := by
  have hrel := find?_location_keeps (L := L) hk
  unfold resolution? contractAt?
  revert hrel
  generalize r.contracts.find? (·.location == L) = o
  generalize r'.contracts.find? (·.location == L) = o'
  intro hrel
  cases hrel
  case none => rw [ha]
  case some c c' hc => simp only [hc.id, hc.name, hc.target]

theorem forall₂_keeps_resolve (h : r.resolve = .ok r') :
    List.Forall₂ Contract.Keeps r.contracts r'.contracts := by
  have ⟨hlen, _⟩ := resolve_contracts h
  refine List.forall₂_iff_get.mpr ⟨hlen.symm, fun i hi hi' => ?_⟩
  exact (extends_resolve h).keeps i hi hi'

theorem resolution?_resolve (h : r.resolve = .ok r') : r'.resolution? L = r.resolution? L :=
  resolution?_of_keeps (forall₂_keeps_resolve h) (extends_resolve h).aliases

theorem resolutionsOf_recordAll (hres : ∀ L, r'.resolution? L = r.resolution? L) (c : Contract)
    (res : List (String × Resolution)) : r'.resolutionsOf (recordAll c res) = r.resolutionsOf c := by
  have hk : c.Keeps (recordAll c res) := keeps_recordAll
  simp only [resolutionsOf, hk.imports, hk.name, hres]

-- Resolving the contracts a resolution gave finds the same resolutions, and recording them
-- again gives the same contracts.
theorem forall₂_resolve_again (hres : ∀ L, r'.resolution? L = r.resolution? L)
    {cs : List Contract} {all : List (List (String × Resolution))}
    (hall : List.Forall₂ (fun c res => r.resolutionsOf c = .ok res) cs all) :
    List.Forall₂ (fun c res => r'.resolutionsOf c = .ok res) ((cs.zip all).map fun p => recordAll p.1 p.2)
        all ∧
      ((((cs.zip all).map fun p => recordAll p.1 p.2).zip all).map fun p => recordAll p.1 p.2) =
        (cs.zip all).map fun p => recordAll p.1 p.2 := by
  induction hall
  case nil => exact ⟨.nil, rfl⟩
  case cons c res cs all hc _ ih =>
    obtain ⟨ih₁, ih₂⟩ := ih
    refine ⟨.cons ((resolutionsOf_recordAll hres c res).trans hc) ih₁, ?_⟩
    simp only [List.zip_cons_cons, List.map_cons, ih₂,
      recordAll_recordAll hc]

theorem resolve_resolve (h : r.resolve = .ok r') :
    r'.resolve = .ok r' := by
  obtain ⟨-, -, -, all, hall, hc⟩ := resolve_eq_ok h
  obtain ⟨h₁, h₂⟩ := forall₂_resolve_again (fun _ => resolution?_resolve h) hall
  rw [← hc] at h₁ h₂
  simp only [resolve, mapM_eq_ok_iff.mpr h₁, bind, Except.bind, pure, Except.pure]
  have h₂' : (r'.contracts.zip all).map
      (fun p => p.2.foldl (fun c x => Resolution.record c x.1 x.2) p.1) = r'.contracts := h₂
  rw [h₂']

section Resolved

-- In a registry that resolving leaves as it is, what a contract records of an imported location.
variable (h : r.resolve = .ok r) (hc : c ∈ r.contracts) (hL : L ∈ c.locations)
include h hc hL

theorem recorded_of_resolve_self (hx : r.resolution? L = some x) : Resolution.Recorded c L x := by
  obtain ⟨i, hi, rfl⟩ := List.getElem_of_mem hc
  exact resolve_recorded h hi hi hL hx

theorem Wf.resolved_dependency (hw : r.Wf) (hc₀ : c₀ ∈ r.contracts) (hl : c₀.location = L) :
    c.dependencies.find? L = some ⟨c₀.id, c₀.name, c₀.target⟩ ∧ L ∉ c.aliases.keys ∧
      c.resolvedAddress L = some c₀.target := by
  have hx : r.resolution? L = some (.dependency ⟨c₀.id, c₀.name, c₀.target⟩) := by
    simp [resolution?, hw.contractAt?_eq_some_iff.mpr ⟨hc₀, hl⟩]
  obtain ⟨hd, ha⟩ := recorded_of_resolve_self h hc hL hx
  exact ⟨hd, Table.find?_eq_none_iff.mp ha, by simp [Contract.resolvedAddress, hd]⟩

theorem resolved_alias (hnone : ∀ c₀ ∈ r.contracts, c₀.location ≠ L) :
    ∃ a, r.aliases.find? L = some a ∧ c.aliases.find? L = some a ∧ L ∉ c.dependencies.keys ∧
      c.resolvedAddress L = some a := by
  -- resolving succeeded, so the location, registered nowhere, has an alias
  obtain ⟨i, hi, rfl⟩ := List.mem_map.mp hL
  obtain ⟨x, hx⟩ := Option.isSome_iff_exists.mp (resolve_isOk_iff.mp ⟨r, h⟩ c hc i hi)
  rcases resolution?_eq_some.mp hx with ⟨c', hc', -⟩ | ⟨-, a, ha, rfl⟩
  · rw [contractAt?_eq_none.mpr hnone] at hc'
    cases hc'
  · have ⟨hca, hd⟩ := recorded_of_resolve_self h hc hL hx
    exact ⟨a, ha, hca, Table.find?_eq_none_iff.mp hd, by simp [Contract.resolvedAddress, hd, hca]⟩

end Resolved

-- In a registry that resolving leaves as it is, a contract's entries are of exactly the
-- locations it imports.
theorem Wf.resolved_keys (hw : r.Wf) (h : r.resolve = .ok r) (hc : c ∈ r.contracts) :
    L ∈ c.dependencies.keys ∨ L ∈ c.aliases.keys ↔ L ∈ c.locations := by
  constructor
  · rintro (hL | hL)
    · obtain ⟨v, hv⟩ := Table.mem_keys.mp hL
      exact (hw.dependencyEntry c hc L v hv).1
    · obtain ⟨v, hv⟩ := Table.mem_keys.mp hL
      exact (hw.aliasEntry c hc L v hv).1
  · intro hL
    by_cases hreg : ∃ c₀ ∈ r.contracts, c₀.location = L
    · obtain ⟨c₀, hc₀, hl⟩ := hreg
      have hd := (hw.resolved_dependency h hc hL hc₀ hl).1
      exact .inl (Table.mem_keys.mpr ⟨_, Table.mem_of_find? hd⟩)
    · obtain ⟨a, -, ha, -⟩ := resolved_alias h hc hL fun c₀ hc₀ hl => hreg ⟨c₀, hc₀, hl⟩
      exact .inr (Table.mem_keys.mpr ⟨a, Table.mem_of_find? ha⟩)

-- Resolving succeeds exactly when every import is of a registered or aliased location. Then
-- each contract records each location it imports once: as a dependency on the contract
-- registered there, which wins over an alias, or else as its configured alias. These are all
-- its entries, each import resolves to that address, and resolving again changes nothing.
theorem resolve_records_imports (hr : r.Reachable cfg) :
    ((∃ r', r.resolve = .ok r') ↔ r.Resolvable) ∧
      ∀ r', r.resolve = .ok r' →
        (∀ c ∈ r'.contracts, ∀ L ∈ c.locations,
          (∀ c₀ ∈ r'.contracts, c₀.location = L →
            c.dependencies.find? L = some ⟨c₀.id, c₀.name, c₀.target⟩ ∧ L ∉ c.aliases.keys ∧
              c.resolvedAddress L = some c₀.target) ∧
          ((∀ c₀ ∈ r'.contracts, c₀.location ≠ L) →
            ∃ t a, cfg.addresses = .ok t ∧ t.find? L = some a ∧ c.aliases.find? L = some a ∧
              L ∉ c.dependencies.keys ∧ c.resolvedAddress L = some a)) ∧
        (∀ c ∈ r'.contracts, ∀ L, L ∈ c.dependencies.keys ∨ L ∈ c.aliases.keys ↔ L ∈ c.locations) ∧
        r'.resolve = .ok r' := by
  refine ⟨resolve_isOk_iff_resolvable, fun r' h => ?_⟩
  -- the resolved registry is reachable, and resolving it again leaves it as it is
  have hr' : r'.Reachable cfg := .step hr (.resolve h)
  have hagain := resolve_resolve h
  refine ⟨fun c hc L hL => ⟨fun c₀ hc₀ hl => hr'.wf.resolved_dependency hagain hc hL hc₀ hl,
    fun hnone => ?_⟩, fun c hc L => hr'.wf.resolved_keys hagain hc, hagain⟩
  -- the registry's aliases are the configured ones
  obtain ⟨a, ha, hrest⟩ := resolved_alias hagain hc hL hnone
  exact ⟨r'.aliases, a, hr'.aliases, ha, hrest⟩

-- `Vault` records `Token` as a dependency and the aliased location as an alias; `Token` only the
-- alias.
theorem resolve_records_imports_vaultThenToken :
    vaultThenToken.Reachable vaultConfig ∧
      vaultThenToken.resolve.toOption.map
          (fun r => r.contracts.map fun c => (c.dependencies.keys, c.aliases.keys)) =
        some [(["token.cdc"], ["fungible.cdc"]), ([], ["fungible.cdc"])] ∧
      (((∃ r', vaultThenToken.resolve = .ok r') ↔ vaultThenToken.Resolvable) ∧
        ∀ r', vaultThenToken.resolve = .ok r' →
          (∀ c ∈ r'.contracts, ∀ L ∈ c.locations,
            (∀ c₀ ∈ r'.contracts, c₀.location = L →
              c.dependencies.find? L = some ⟨c₀.id, c₀.name, c₀.target⟩ ∧ L ∉ c.aliases.keys ∧
                c.resolvedAddress L = some c₀.target) ∧
            ((∀ c₀ ∈ r'.contracts, c₀.location ≠ L) →
              ∃ t a, vaultConfig.addresses = .ok t ∧ t.find? L = some a ∧
                c.aliases.find? L = some a ∧ L ∉ c.dependencies.keys ∧
                c.resolvedAddress L = some a)) ∧
          (∀ c ∈ r'.contracts, ∀ L,
            L ∈ c.dependencies.keys ∨ L ∈ c.aliases.keys ↔ L ∈ c.locations) ∧
          r'.resolve = .ok r') :=
  ⟨reachable_vaultThenToken, by decide +kernel, resolve_records_imports reachable_vaultThenToken⟩

section Unresolved

variable {e : DeployError}

-- The location is registered or aliased.
def Resolves (r : Registry) (L : String) : Prop :=
  (∃ c ∈ r.contracts, c.location = L) ∨ L ∈ r.aliases.keys

theorem resolution?_isSome_iff_resolves : (r.resolution? L).isSome ↔ r.Resolves L :=
  resolution?_isSome

-- A contract's imports fail to resolve at the first of them whose location is neither
-- registered nor aliased, and the failure names the contract and that location.
theorem resolutionsOf_eq_error : r.resolutionsOf c = .error e ↔
    ∃ pre i post, c.imports = pre ++ i :: post ∧ (∀ j ∈ pre, r.Resolves j.location) ∧
      ¬r.Resolves i.location ∧ e = .unresolvedImport c.name i.location := by
  rw [resolutionsOf, mapM_eq_error_iff]
  refine exists₃_congr fun pre i post => and_congr_right fun _ =>
    and_congr (forall₂_congr fun j _ => ?_) ?_
  · rw [← resolution?_isSome_iff_resolves]
    cases r.resolution? j.location <;> simp
  · rw [← resolution?_isSome_iff_resolves]
    cases r.resolution? i.location <;> simp [eq_comm]

theorem resolve_eq_error_first : r.resolve = .error e ↔
    ∃ pre c post, r.contracts = pre ++ c :: post ∧
      (∀ c' ∈ pre, ∀ L ∈ c'.locations, r.Resolves L) ∧ r.resolutionsOf c = .error e := by
  rw [resolve_eq_error_iff, mapM_eq_error_iff]
  refine exists₃_congr fun pre c post => and_congr_right fun _ =>
    and_congr_left fun _ => forall₂_congr fun c' _ => ?_
  simp only [exists_resolutionsOf_eq_ok, Contract.locations, List.mem_map, forall_exists_index,
    and_imp, forall_apply_eq_imp_iff₂, resolution?_isSome_iff_resolves]

theorem resolve_of_sort_unresolved (h : r.sort.2 = some (.unresolvedImport name L)) :
    r.resolve = .error (.unresolvedImport name L) := by
  cases hres : r.resolve with
  | error e =>
    rw [sort_of_resolve_error hres] at h
    rw [Option.some.inj h]
  | ok r₁ =>
    cases ho : r₁.graph.order with
    | ok o =>
      rw [sort_of_order_ok hres ho] at h
      cases h
    | error cs =>
      rw [sort_of_order_error hres ho] at h
      cases h

-- A failed resolution, direct or in a sort, names the first import, by contract number and
-- then in import order, whose location is neither registered nor aliased, with the name of
-- the contract importing it. Nothing is recorded: a resolution that fails gives no registry,
-- and a sort that fails so gives back the registry as it was.
theorem unresolved_import_first
    (h : r.resolve = .error (.unresolvedImport name L) ∨
      r.sort.2 = some (.unresolvedImport name L)) :
    (∃ pre c post, r.contracts = pre ++ c :: post ∧
      (∀ c' ∈ pre, ∀ L' ∈ c'.locations, r.Resolves L') ∧
      ∃ ipre i ipost, c.imports = ipre ++ i :: ipost ∧ (∀ i' ∈ ipre, r.Resolves i'.location) ∧
        i.location = L ∧ ¬r.Resolves L ∧ c.name = name) ∧
      r.resolve = .error (.unresolvedImport name L) ∧
      r.sort = (r, some (.unresolvedImport name L)) := by
  have hres : r.resolve = .error (.unresolvedImport name L) := h.elim id resolve_of_sort_unresolved
  obtain ⟨pre, c, post, hc, hpre, hrc⟩ := resolve_eq_error_first.mp hres
  obtain ⟨ipre, i, ipost, hi, hipre, hni, he⟩ := resolutionsOf_eq_error.mp hrc
  simp only [DeployError.unresolvedImport.injEq] at he
  obtain ⟨rfl, rfl⟩ := he
  exact ⟨⟨pre, c, post, hc, hpre, ipre, i, ipost, hi, hipre, rfl, hni, rfl⟩, hres,
    sort_of_resolve_error hres⟩

-- `Foo` imports itself, then a location neither registered nor aliased.
def missingImport : Registry :=
  ⟨{}, .importSpans,
    [⟨0, "Foo", "foo.cdc", "", [], default, "", [⟨"foo.cdc", default⟩, ⟨"missing.cdc", default⟩],
      {}, {}⟩], [0]⟩

theorem unresolved_import_first_missing :
    (missingImport.resolve = .error (.unresolvedImport "Foo" "missing.cdc") ∨
        missingImport.sort.2 = some (.unresolvedImport "Foo" "missing.cdc")) ∧
      ((∃ pre c post, missingImport.contracts = pre ++ c :: post ∧
        (∀ c' ∈ pre, ∀ L' ∈ c'.locations, missingImport.Resolves L') ∧
        ∃ ipre i ipost, c.imports = ipre ++ i :: ipost ∧
          (∀ i' ∈ ipre, missingImport.Resolves i'.location) ∧
          i.location = "missing.cdc" ∧ ¬missingImport.Resolves "missing.cdc" ∧ c.name = "Foo") ∧
        missingImport.resolve = .error (.unresolvedImport "Foo" "missing.cdc") ∧
        missingImport.sort = (missingImport, some (.unresolvedImport "Foo" "missing.cdc"))) :=
  have h : missingImport.resolve = .error (.unresolvedImport "Foo" "missing.cdc") := rfl
  ⟨.inl h, unresolved_import_first (.inl h)⟩

end Unresolved

end ResolveAgain

end Registry

end ContractDeploy
