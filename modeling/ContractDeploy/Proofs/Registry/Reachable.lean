import ContractDeploy.Proofs.Registry.Sort

namespace ContractDeploy.Registry

-- One call that changes the registry. A failed add or resolve returns no registry, so the
-- registry stays as it was; sort returns one whether it fails or not.
inductive Step : Registry → Registry → Prop
  | add {sources : Sources} {loc acct : String} {tgt : Address} {args : List Json} {c : Contract} :
      r.add sources loc tgt acct args = .ok (c, r') → Step r r'
  | resolve : r.resolve = .ok r' → Step r r'
  | sort : Step r r.sort.1

-- The registries a configuration leads to, by any sequence of calls.
inductive Reachable (cfg : Config) : Registry → Prop
  | config : ofConfig cfg = .ok r → Reachable cfg r
  | step : Reachable cfg r → Step r r' → Reachable cfg r'

variable {r r' : Registry} {cfg : Config}

theorem Step.wf (hw : r.Wf) : Step r r' → r'.Wf
  | .add h => hw.add h
  | .resolve h => hw.resolve h
  | .sort => hw.sort

theorem Step.extends : Step r r' → r.Extends r'
  | .add h => extends_add h
  | .resolve h => extends_resolve h
  | .sort => extends_sort

theorem Reachable.wf (hr : r.Reachable cfg) : r.Wf := by
  induction hr
  case config h => exact wf_ofConfig h
  case step hs hw => exact hs.wf hw

theorem extends_of_steps (h : Relation.ReflTransGen Step r r') : r.Extends r' := by
  induction h
  case refl => exact .refl r
  case tail hs he => exact he.trans hs.extends

theorem Reachable.aliases (hr : r.Reachable cfg) : cfg.addresses = .ok r.aliases := by
  induction hr
  case config h => exact (ofConfig_eq_ok h).1
  case step hs ih => rw [ih, hs.extends.aliases]

theorem Step.substitution : Step r r' → r'.substitution = r.substitution
  | .add h => by obtain ⟨-, -, rfl⟩ := add_eq_ok h; rfl
  | .resolve h => (resolve_eq_ok h).2.1
  | .sort => sort_fields.2

theorem Reachable.substitution (hr : r.Reachable cfg) : r.substitution = cfg.substitution := by
  induction hr
  case config h => exact (ofConfig_eq_ok h).2.1
  case step hs ih => rw [hs.substitution, ih]

-- A property of single contracts that every contract made from code has, and that recording
-- resolutions keeps, holds of every contract of a reachable registry.
theorem Reachable.forall_contracts {P : Contract → Prop}
    (hmake : ∀ {n loc code tgt acct args c}, Contract.make n loc code tgt acct args = .ok c → P c)
    (hrecord : ∀ {c} res, P c → P (recordAll c res)) (hr : r.Reachable cfg) :
    ∀ c ∈ r.contracts, P c := by
  -- resolving records resolutions in each contract, and sorting resolves or keeps the contracts
  have hresolve : ∀ {r₀ r₁ : Registry}, r₀.resolve = .ok r₁ → (∀ c ∈ r₀.contracts, P c) →
      ∀ c ∈ r₁.contracts, P c := fun h hp c hc => by
    obtain ⟨c₀, hc₀, res, -, rfl⟩ := mem_resolve h hc
    exact hrecord res (hp c₀ hc₀)
  induction hr
  case config h =>
    obtain ⟨-, -, hc, -⟩ := ofConfig_eq_ok h
    simp [hc]
  case step r₀ r₁ _ hs ih =>
    cases hs with
    | add ha =>
      obtain ⟨-, ⟨bytes, code, -, -, hm⟩, rfl⟩ := add_eq_ok ha
      intro c hc
      rcases List.mem_append.mp hc with hc | hc
      · exact ih c hc
      · exact List.mem_singleton.mp hc ▸ hmake hm
    | resolve h => exact hresolve h ih
    | sort =>
      rcases sort_contracts (r := r₀) with he | ⟨r₂, h, he⟩
      · rw [he]
        exact ih
      · rw [he]
        exact hresolve h ih

-- The registry after an add call: a failed add leaves it as it was.
def afterAdd (r : Registry) (sources : Sources) (loc : String) (tgt : Address) (acct : String)
    (args : List Json) : Registry :=
  match r.add sources loc tgt acct args with
  | .ok (_, r') => r'
  | .error _ => r

theorem Reachable.afterAdd {sources : Sources} {loc acct : String} {tgt : Address}
    {args : List Json} (hr : r.Reachable cfg) : (r.afterAdd sources loc tgt acct args).Reachable cfg := by
  unfold Registry.afterAdd
  split
  case h_1 h => exact .step hr (.add h)
  case h_2 => exact hr

-- `Vault` imports `Token` and an aliased location; `Token` imports the aliased location only.
def vaultConfig : Config := Config.default.withAlias "fungible.cdc" "0x00000000000000ee"

def vaultSources : Sources :=
  ⟨(Table.empty.insert "vault.cdc"
      (Utf8.encode "import \"token.cdc\"\nimport \"fungible.cdc\"\ncontract Vault \x7b\x7d")).insert
    "token.cdc" (Utf8.encode "import \"fungible.cdc\"\ncontract Token \x7b\x7d")⟩

def vaultStart : Registry := ⟨Table.empty.insert "fungible.cdc" ⟨0xee⟩, .importSpans, [], []⟩

def vaultAdded : Registry := vaultStart.afterAdd vaultSources "vault.cdc" ⟨1⟩ "vault" []

-- `Vault` is added first, so it is number 0, though it has to be deployed after `Token`.
def vaultThenToken : Registry := vaultAdded.afterAdd vaultSources "token.cdc" ⟨2⟩ "token" []

theorem reachable_vaultThenToken : vaultThenToken.Reachable vaultConfig := by
  have h₀ : vaultStart.Reachable vaultConfig := .config rfl
  have h₁ : vaultAdded.Reachable vaultConfig := by
    unfold vaultAdded
    exact h₀.afterAdd
  unfold vaultThenToken
  exact h₁.afterAdd

theorem locations_vaultThenToken :
    vaultThenToken.contracts.map (fun c => (c.location, c.locations)) =
      [("vault.cdc", ["token.cdc", "fungible.cdc"]), ("token.cdc", ["fungible.cdc"])] := by
  decide +kernel

theorem length_vaultThenToken : vaultThenToken.contracts.length = 2 := by
  simpa using congrArg List.length locations_vaultThenToken

theorem resolvable_vaultThenToken : vaultThenToken.Resolvable := by
  unfold Resolvable
  decide +kernel

theorem imports_vaultThenToken {a b : Nat} : vaultThenToken.Imports a b ↔ a = 1 ∧ b = 0 := by
  obtain ⟨c₀, c₁, hc⟩ := List.length_eq_two.mp length_vaultThenToken
  have hl := locations_vaultThenToken
  simp only [hc, List.map_cons, List.map_nil, List.cons.injEq, Prod.mk.injEq, and_true] at hl
  obtain ⟨⟨h₀, h₀'⟩, h₁, h₁'⟩ := hl
  unfold Imports
  rw [hc]
  constructor
  · rintro ⟨ca, cb, ha, hb, hin⟩
    rcases a with _ | _ | a <;> rcases b with _ | _ | b <;> simp_all
  · rintro ⟨rfl, rfl⟩
    exact ⟨c₁, c₀, rfl, rfl, by simp [h₁, h₀']⟩

theorem acyclic_vaultThenToken (a : Nat) : ¬Relation.TransGen vaultThenToken.Imports a a := by
  -- every path of imports runs from `Token` to `Vault`
  have hpath : ∀ {a b}, Relation.TransGen vaultThenToken.Imports a b → a = 1 ∧ b = 0 := by
    intro a b h
    induction h with
    | single h => exact imports_vaultThenToken.mp h
    | tail _ h ih =>
      have := imports_vaultThenToken.mp h
      omega
  intro h
  have := hpath h
  omega

theorem sort_vaultThenToken : vaultThenToken.sort.2 = none :=
  reachable_vaultThenToken.wf.sort_eq_none_iff.mpr ⟨resolvable_vaultThenToken, acyclic_vaultThenToken⟩

theorem order_sort_vaultThenToken : vaultThenToken.sort.1.order = [1, 0] := by
  obtain ⟨⟨hperm, hprec⟩, -⟩ := reachable_vaultThenToken.wf.sort_ok sort_vaultThenToken
  -- `Vault` imports `Token`, so of the two `Token` comes first
  obtain ⟨l₁, l₂, he, h1, h0⟩ := hprec 1 0 (.single (imports_vaultThenToken.mpr ⟨rfl, rfl⟩))
  have hlen : l₁.length + l₂.length = 2 := by
    rw [← List.length_append, ← he, hperm.length_eq, List.length_range, length_vaultThenToken]
  have hpos₁ := List.length_pos_of_mem h1
  have hpos₂ := List.length_pos_of_mem h0
  obtain ⟨u, rfl⟩ := List.length_eq_one_iff.mp (show l₁.length = 1 by omega)
  obtain ⟨v, rfl⟩ := List.length_eq_one_iff.mp (show l₂.length = 1 by omega)
  rw [List.mem_singleton] at h1 h0
  rw [he, ← h1, ← h0]
  rfl

-- Sorting resolves: it keeps the resolved contracts and puts `Token` first.
theorem sort_vaultThenToken_eq :
    ∃ r₁, vaultThenToken.resolve = .ok r₁ ∧ vaultThenToken.sort.1 = { r₁ with order := [1, 0] } := by
  obtain ⟨r₁, h⟩ := resolve_isOk_iff_resolvable.mpr resolvable_vaultThenToken
  refine ⟨r₁, h, ?_⟩
  cases ho : r₁.graph.order with
  | ok o =>
    have hs := sort_of_order_ok h ho
    have hord := order_sort_vaultThenToken
    rw [hs] at hord ⊢
    rw [← hord]
  | error cs =>
    have hs := sort_vaultThenToken
    rw [sort_of_order_error h ho] at hs
    cases hs

-- What holds of every registry the calls reach: contracts numbered by position at distinct
-- locations, each location looked up to its contract, an order of all the numbers, entries
-- naming the contracts they resolved to, and contracts that later calls keep as they were.
theorem reachable_invariant (hr : r.Reachable cfg) :
    r.Wf ∧ cfg.addresses = .ok r.aliases ∧
      (∀ L c, r.contractAt? L = some c ↔ c ∈ r.contracts ∧ c.location = L) ∧
      (∀ c ∈ r.contracts, ∀ L d, (L, d) ∈ c.dependencies.toList →
        ∃ c', r.contractAt? L = some c' ∧ c'.id = d.id) ∧
      (∀ i ∈ r.order, i < r.contracts.length) ∧
      (∀ L c, r.contractAt? L = some c → c.id < r.contracts.length) ∧
      ∀ r', Relation.ReflTransGen Step r r' → r.Extends r' := by
  have hw := hr.wf
  refine ⟨hw, hr.aliases, fun L c => hw.contractAt?_eq_some_iff, ?_, fun i hi => hw.order_lt hi,
    fun L c hc => hw.id_lt (contractAt?_eq_some hc).1, fun r' h => extends_of_steps h⟩
  intro c hc L d hd
  obtain ⟨-, hlt, hl, -⟩ := hw.dependencyEntry c hc L d hd
  exact ⟨r.contracts[d.id], hw.contractAt?_eq_some_iff.mpr ⟨List.getElem_mem hlt, hl⟩,
    hw.id_eq d.id hlt⟩

-- After the two adds and a sort, `Vault` records its dependency on `Token`, number 1.
theorem reachable_invariant_vaultSorted :
    vaultThenToken.sort.1.Reachable vaultConfig ∧ vaultThenToken.sort.1.order = [1, 0] ∧
      vaultThenToken.sort.1.contracts.map (fun c => c.dependencies.toList.map fun e => (e.1, e.2.id)) =
        [[("token.cdc", 1)], []] ∧
      (vaultThenToken.sort.1.Wf ∧ vaultConfig.addresses = .ok vaultThenToken.sort.1.aliases ∧
        (∀ L c, vaultThenToken.sort.1.contractAt? L = some c ↔
          c ∈ vaultThenToken.sort.1.contracts ∧ c.location = L) ∧
        (∀ c ∈ vaultThenToken.sort.1.contracts, ∀ L d, (L, d) ∈ c.dependencies.toList →
          ∃ c', vaultThenToken.sort.1.contractAt? L = some c' ∧ c'.id = d.id) ∧
        (∀ i ∈ vaultThenToken.sort.1.order, i < vaultThenToken.sort.1.contracts.length) ∧
        (∀ L c, vaultThenToken.sort.1.contractAt? L = some c →
          c.id < vaultThenToken.sort.1.contracts.length) ∧
        ∀ r', Relation.ReflTransGen Step vaultThenToken.sort.1 r' → vaultThenToken.sort.1.Extends r') := by
  have hr : vaultThenToken.sort.1.Reachable vaultConfig := .step reachable_vaultThenToken .sort
  obtain ⟨r₁, h, hs⟩ := sort_vaultThenToken_eq
  have hdeps : vaultThenToken.resolve.toOption.map
      (fun r => r.contracts.map fun c => c.dependencies.toList.map fun e => (e.1, e.2.id)) =
        some [[("token.cdc", 1)], []] := by
    decide +kernel
  rw [h] at hdeps
  refine ⟨hr, order_sort_vaultThenToken, ?_, reachable_invariant hr⟩
  rw [hs]
  exact Option.some.inj hdeps

-- Sorting succeeds exactly when every import resolves and the import graph has no cycle. Then
-- the contracts come each once, each after all it imports, in the least such order by number,
-- whatever the order before; otherwise they come in the order before.
theorem sort_least_deploy_order (hr : r.Reachable cfg) :
    (r.sort.2 = none ↔ r.Resolvable ∧ ∀ a, ¬Relation.TransGen r.Imports a a) ∧
      (r.sort.2 = none →
        r.sort.1.ordered.Perm r.sort.1.contracts ∧ r.DeployOrder (r.sort.1.ordered.map (·.id)) ∧
          (∀ l, r.DeployOrder l → r.sort.1.ordered.map (·.id) ≤ l) ∧
          ∀ o, ({ r with order := o }).sort = r.sort) ∧
      (r.sort.2 ≠ none → r.sort.1.ordered.map (·.id) = r.ordered.map (·.id)) := by
  have hw := hr.wf
  have hws := hw.sort
  rw [hws.ordered_ids, hw.ordered_ids]
  refine ⟨hw.sort_eq_none_iff, fun hs => ?_, sort_order_of_ne_none⟩
  have ⟨hd, hmin⟩ := hw.sort_ok hs
  exact ⟨hws.ordered_perm, hd, hmin, fun o => sort_withOrder hs⟩

-- `Vault`, added first, imports `Token`, added second: sorting puts `Token` first.
theorem sort_least_deploy_order_vaultThenToken :
    vaultThenToken.Reachable vaultConfig ∧ vaultThenToken.contracts.map (·.name) = ["Vault", "Token"] ∧
      vaultThenToken.sort.1.order = [1, 0] ∧
      (vaultThenToken.sort.2 = none ↔
        vaultThenToken.Resolvable ∧ ∀ a, ¬Relation.TransGen vaultThenToken.Imports a a) ∧
      (vaultThenToken.sort.2 = none →
        vaultThenToken.sort.1.ordered.Perm vaultThenToken.sort.1.contracts ∧
          vaultThenToken.DeployOrder (vaultThenToken.sort.1.ordered.map (·.id)) ∧
          (∀ l, vaultThenToken.DeployOrder l → vaultThenToken.sort.1.ordered.map (·.id) ≤ l) ∧
          ∀ o, ({ vaultThenToken with order := o }).sort = vaultThenToken.sort) ∧
      (vaultThenToken.sort.2 ≠ none →
        vaultThenToken.sort.1.ordered.map (·.id) = vaultThenToken.ordered.map (·.id)) :=
  ⟨reachable_vaultThenToken, by decide +kernel, order_sort_vaultThenToken,
    sort_least_deploy_order reachable_vaultThenToken⟩

end ContractDeploy.Registry
