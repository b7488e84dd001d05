import ContractDeploy.Plan
import ContractDeploy.Proofs.Substitution
import ContractDeploy.Proofs.Registry.Reachable

namespace ContractDeploy

namespace Address

theorem hexDigit_mem (hn : n < 16) : Text.hexDigit n ∈ "0123456789abcdef".toList := by
  have : ∀ n < 16, Text.hexDigit n ∈ "0123456789abcdef".toList := by decide
  exact this n hn

theorem literal_toList (a : Address) :
    ∃ ds, a.literal.toList = '0' :: 'x' :: ds ∧ ds.length = 16 ∧
      ∀ d ∈ ds, d ∈ "0123456789abcdef".toList := by
  refine ⟨a.bytes.flatMap hexByte, by simp [literal, hex, hexWith],
    by simp [bytes, hexByte, size, Function.comp_def], ?_⟩
  intro d hd
  obtain ⟨b, hb, hd⟩ := List.mem_flatMap.mp hd
  have hb' : b < 256 := by
    obtain ⟨i, -, rfl⟩ := List.mem_map.mp hb
    exact Nat.mod_lt _ (by decide)
  simp only [hexByte, List.mem_cons, List.mem_nil_iff, or_false] at hd
  rcases hd with rfl | rfl
  · exact hexDigit_mem (by omega)
  · exact hexDigit_mem (Nat.mod_lt _ (by decide))

end Address

namespace Contract

variable {c c' : Contract} {n : Nat} {loc code acct : String} {tgt : Address} {args : List Json}

-- The imports of a contract lie in order along its code, each at its quoted literal.
def Laid (c : Contract) : Prop :=
  Layout SourceImport.span (fun _ => Lexer.Quoted) .start c.code.toList c.imports

theorem laid_make (h : make n loc code tgt acct args = .ok c) : c.Laid := by
  obtain ⟨p, hp, -, rfl⟩ := make_eq_ok h
  exact Program.parse_pathImports hp

theorem Keeps.laid (hk : c.Keeps c') (h : c.Laid) : c'.Laid := by
  unfold Laid
  rw [hk.code, hk.imports]
  exact h

theorem Laid.deployedCode (h : c.Laid) :
    c.deployedCode .importSpans =
      let st := c.imports.foldl (Splice.spanStep c.code.toList c.code.utf8ByteSize c.resolvedAddress) ([], 0)
      String.ofList (st.1 ++ Utf8.slice c.code.toList st.2 c.code.utf8ByteSize) := by
  simp only [Contract.deployedCode, substituteSpans, List.mergeSort_of_pairwise h.sorted]

end Contract

namespace Registry

variable {r r' : Registry} {cfg : Config} {c c' : Contract} {i : SourceImport} {k : Nat}

theorem Reachable.laid (hr : r.Reachable cfg) : ∀ c ∈ r.contracts, c.Laid :=
  hr.forall_contracts Contract.laid_make fun _ h => keeps_recordAll.laid h

-- After a successful sort, every import has an address: the target of the contract registered
-- at its location, or else the alias of the location.
theorem resolvedAddress_of_sort (hok : r.sort.2 = none) (hc : c ∈ r.sort.1.contracts)
    (hi : i ∈ c.imports) :
    ∃ a, c.resolvedAddress i.location = some a ∧
      ((∃ c' ∈ r.contracts, c'.location = i.location ∧ a = c'.target) ∨
        ((∀ c' ∈ r.contracts, c'.location ≠ i.location) ∧ r.aliases.find? i.location = some a)) := by
  cases h : r.resolve with
  | error e => rw [sort_of_resolve_error h] at hok; cases hok
  | ok r₁ =>
    have hsc : r.sort.1.contracts = r₁.contracts := by
      cases ho : r₁.graph.order with
      | ok o => rw [sort_of_order_ok h ho]
      | error cs => rw [sort_of_order_error h ho]
    obtain ⟨b, hb', rfl⟩ := List.getElem_of_mem (hsc ▸ hc)
    have hb : b < r.contracts.length := (resolve_contracts h).1 ▸ hb'
    have hk := (extends_resolve h).keeps b hb hb'
    have hL : i.location ∈ r.contracts[b].locations := hk.locations ▸ List.mem_map_of_mem hi
    have hsome := resolve_isOk_iff.mp ⟨r₁, h⟩ _ (List.getElem_mem hb) i (hk.imports ▸ hi)
    obtain ⟨x, hx⟩ := Option.isSome_iff_exists.mp hsome
    rcases resolution?_eq_some.mp hx with ⟨c', hc', rfl⟩ | ⟨hnone, a, ha, rfl⟩
    · have hd := (resolve_recorded h hb hb' hL hx).1
      exact ⟨c'.target, by simp [Contract.resolvedAddress, hd],
        .inl ⟨c', (contractAt?_eq_some hc').1, (contractAt?_eq_some hc').2, rfl⟩⟩
    · have ⟨ha', hd⟩ := resolve_recorded h hb hb' hL hx
      exact ⟨a, by simp [Contract.resolvedAddress, hd, ha'], .inr ⟨contractAt?_eq_none.mp hnone, ha⟩⟩

theorem Wf.earlier_of_import (hw : r.Wf) (hok : r.sort.2 = none) (hk : r.sort.1.ordered[k]? = some c)
    (hc' : c' ∈ r.contracts) (hL : c'.location ∈ c.locations) :
    ∃ k' < k, ∃ c'', r.sort.1.ordered[k']? = some c'' ∧ c''.location = c'.location ∧
      c''.target = c'.target := by
  have hws := hw.sort
  have hext : r.Extends r.sort.1 := extends_sort
  have hlen : r.sort.1.contracts.length = r.contracts.length := sort_fields.1
  have hcm : c ∈ r.sort.1.contracts := hws.ordered_perm.subset (List.mem_of_getElem? hk)
  have hb' := hws.id_lt hcm
  have hb : c.id < r.contracts.length := hlen ▸ hb'
  have hkb := hext.keeps c.id hb hb'
  rw [hws.getElem_id hcm hb'] at hkb
  -- `c` imports the location of `c'`, so the order puts `c'` first
  have himp : r.Imports c'.id c.id :=
    ⟨c', r.contracts[c.id], hw.getElem?_id hc', List.getElem?_eq_getElem hb, hkb.locations ▸ hL⟩
  have hprec := (hw.sort_ok hok).1.2 _ _ (.single himp)
  have horder : r.sort.1.order[k]? = some c.id := by
    rw [← hws.ordered_ids, List.getElem?_map, hk]
    rfl
  obtain ⟨k', hk', hk'a⟩ := hprec.index (hws.order_perm.nodup_iff.mpr List.nodup_range) horder
  rw [← hws.ordered_ids, List.getElem?_map] at hk'a
  obtain ⟨c'', hc''k, hc''id⟩ := Option.map_eq_some_iff.mp hk'a
  have hc''m : c'' ∈ r.sort.1.contracts := hws.ordered_perm.subset (List.mem_of_getElem? hc''k)
  -- the contract there is `c'` as sorting kept it
  have ha := hw.id_lt hc'
  have hka := hext.keeps c'.id ha (hlen ▸ ha)
  rw [hw.getElem_id hc' ha] at hka
  have hc'' : r.sort.1.contracts[c'.id]? = some c'' := hc''id ▸ hws.getElem?_id hc''m
  obtain ⟨_, hc''e⟩ := List.getElem?_eq_some_iff.mp hc''
  rw [hc''e] at hka
  exact ⟨k', hk', c'', hc''k, hka.location, hka.target⟩

-- After a successful sort, each import of a contract resolves to the target of the contract
-- registered at its location, which comes earlier in order, or else to the alias of the location.
theorem Wf.resolvedAddress_earlier (hw : r.Wf) (hok : r.sort.2 = none)
    (hk : r.sort.1.ordered[k]? = some c) (hi : i ∈ c.imports) :
    ∃ a, c.resolvedAddress i.location = some a ∧
      ((∃ k' < k, ∃ c', r.sort.1.ordered[k']? = some c' ∧ c'.location = i.location ∧
          a = c'.target) ∨
        ((∀ c' ∈ r.contracts, c'.location ≠ i.location) ∧ r.aliases.find? i.location = some a)) := by
  have hcm : c ∈ r.sort.1.contracts := hw.sort.ordered_perm.subset (List.mem_of_getElem? hk)
  obtain ⟨a, ha, hq⟩ := resolvedAddress_of_sort hok hcm hi
  refine ⟨a, ha, ?_⟩
  rcases hq with ⟨c', hc', hl, rfl⟩ | hq
  · obtain ⟨k', hk', c'', hk'', hl'', ht''⟩ :=
      hw.earlier_of_import hok hk hc' (hl ▸ List.mem_map_of_mem hi)
    exact .inl ⟨k', hk', c'', hk'', hl''.trans hl, ht''.symm⟩
  · exact .inr hq

-- After a successful sort with substitution at the import spans, the plan lists the contracts in
-- order, each with its own fields, and its code is its source with every import literal, in
-- order and repeats included, replaced by an address literal: the target of the contract
-- registered at the location, which comes earlier in the plan, or else the alias of the location.
theorem plan_substitutes_imports (hr : r.Reachable cfg) (hs : cfg.substitution = .importSpans)
    (hok : r.sort.2 = none) :
    r.sort.1.ordered.Perm r.sort.1.contracts ∧ r.sort.1.plan.contracts.length = r.contracts.length ∧
      ∀ (k : Nat) (c : Contract), r.sort.1.ordered[k]? = some c →
        ∃ pc : PlannedContract, r.sort.1.plan.contracts[k]? = some pc ∧
          pc.name = c.name ∧ pc.location = c.location ∧ pc.accountAddress = c.target ∧
          pc.accountName = c.accountName ∧ pc.args = c.args ∧
          ∃ gaps lits tail addrs, c.code.toList = weave gaps lits tail ∧
            pc.code.toList = weave gaps (addrs.map (·.literal.toList)) tail ∧
            gaps.length = c.imports.length ∧
            List.Forall₂ (fun i lit => Lexer.Quoted lit ∧
              lit = Utf8.slice c.code.toList i.span.start.offset i.span.stop.offset) c.imports lits ∧
            List.Forall₂ (fun i a =>
              ((∃ k' < k, ∃ c', r.sort.1.ordered[k']? = some c' ∧ c'.location = i.location ∧
                  a = c'.target) ∨
                ((∀ c' ∈ r.contracts, c'.location ≠ i.location) ∧
                  r.aliases.find? i.location = some a)) ∧
              ∃ ds, a.literal.toList = '0' :: 'x' :: ds ∧ ds.length = 16 ∧
                ∀ d ∈ ds, d ∈ "0123456789abcdef".toList) c.imports addrs := by
  have hw := hr.wf
  have hr' : r.sort.1.Reachable cfg := .step hr .sort
  have hws := hw.sort
  have hsub : r.sort.1.substitution = .importSpans := hr'.substitution.trans hs
  refine ⟨hws.ordered_perm, ?_, fun k c hk => ?_⟩
  · simp only [plan, Plan.ofContracts, List.length_map]
    rw [hws.ordered_perm.length_eq, sort_fields.1]
  have hcm : c ∈ r.sort.1.contracts := hws.ordered_perm.subset (List.mem_of_getElem? hk)
  -- each import takes the address it resolves to
  let pick := fun i : SourceImport => (c.resolvedAddress i.location).getD default
  have hpick : ∀ i ∈ c.imports, c.resolvedAddress i.location = some (pick i) ∧
      ((∃ k' < k, ∃ c', r.sort.1.ordered[k']? = some c' ∧ c'.location = i.location ∧
          pick i = c'.target) ∨
        ((∀ c' ∈ r.contracts, c'.location ≠ i.location) ∧
          r.aliases.find? i.location = some (pick i))) ∧
      ∃ ds, (pick i).literal.toList = '0' :: 'x' :: ds ∧ ds.length = 16 ∧
        ∀ d ∈ ds, d ∈ "0123456789abcdef".toList := by
    intro i hi
    obtain ⟨a, ha, hq⟩ := hw.resolvedAddress_earlier hok hk hi
    have hp : pick i = a := by simp [pick, ha]
    rw [hp]
    exact ⟨ha, hq, a.literal_toList⟩
  have hres : List.Forall₂ (fun i a => c.resolvedAddress i.location = some a) c.imports
      (c.imports.map pick) :=
    List.forall₂_map_right_iff.mpr (List.forall₂_same.mpr fun i hi => (hpick i hi).1)
  obtain ⟨gaps, lits, tail, hcode, hnew, hlen, hlits⟩ := substituteSpans_eq (hr'.laid c hcm) hres
  have hpc : r.sort.1.plan.contracts[k]? = some (PlannedContract.ofContract .importSpans c) := by
    simp [plan, Plan.ofContracts, hk, hsub]
  refine ⟨PlannedContract.ofContract .importSpans c, hpc, rfl, rfl, rfl, rfl, rfl,
    gaps, lits, tail, c.imports.map pick, hcode, hnew, hlen, hlits, ?_⟩
  exact List.forall₂_map_right_iff.mpr (List.forall₂_same.mpr fun i hi => (hpick i hi).2)

-- The plan deploys `Token`, then `Vault` with `Token`'s address and the alias in place of its
-- imports.
theorem plan_substitutes_imports_vaultThenToken :
    vaultThenToken.Reachable vaultConfig ∧ vaultConfig.substitution = .importSpans ∧
      vaultThenToken.sort.2 = none ∧
      vaultThenToken.sort.1.plan.contracts.map (·.code) =
        ["import 0x00000000000000ee\ncontract Token \x7b\x7d",
          "import 0x0000000000000002\nimport 0x00000000000000ee\ncontract Vault \x7b\x7d"] ∧
      (vaultThenToken.sort.1.ordered.Perm vaultThenToken.sort.1.contracts ∧
        vaultThenToken.sort.1.plan.contracts.length = vaultThenToken.contracts.length ∧
        ∀ (k : Nat) (c : Contract), vaultThenToken.sort.1.ordered[k]? = some c →
          ∃ pc : PlannedContract, vaultThenToken.sort.1.plan.contracts[k]? = some pc ∧
            pc.name = c.name ∧ pc.location = c.location ∧ pc.accountAddress = c.target ∧
            pc.accountName = c.accountName ∧ pc.args = c.args ∧
            ∃ gaps lits tail addrs, c.code.toList = weave gaps lits tail ∧
              pc.code.toList = weave gaps (addrs.map (·.literal.toList)) tail ∧
              gaps.length = c.imports.length ∧
              List.Forall₂ (fun i lit => Lexer.Quoted lit ∧
                lit = Utf8.slice c.code.toList i.span.start.offset i.span.stop.offset) c.imports lits ∧
              List.Forall₂ (fun i a =>
                ((∃ k' < k, ∃ c', vaultThenToken.sort.1.ordered[k']? = some c' ∧
                    c'.location = i.location ∧ a = c'.target) ∨
                  ((∀ c' ∈ vaultThenToken.contracts, c'.location ≠ i.location) ∧
                    vaultThenToken.aliases.find? i.location = some a)) ∧
                ∃ ds, a.literal.toList = '0' :: 'x' :: ds ∧ ds.length = 16 ∧
                  ∀ d ∈ ds, d ∈ "0123456789abcdef".toList) c.imports addrs) := by
  obtain ⟨r₁, h, hs⟩ := sort_vaultThenToken_eq
  have hr₁ : r₁.Reachable vaultConfig := .step reachable_vaultThenToken (.resolve h)
  -- each contract's imports are laid in order, so its code is substituted without sorting
  have hplan : vaultThenToken.sort.1.plan.contracts.map (·.code) =
      ({ r₁ with order := [1, 0] } : Registry).ordered.map fun c =>
        let st := c.imports.foldl
          (Splice.spanStep c.code.toList c.code.utf8ByteSize c.resolvedAddress) ([], 0)
        String.ofList (st.1 ++ Utf8.slice c.code.toList st.2 c.code.utf8ByteSize) := by
    rw [hs, plan, Plan.ofContracts, List.map_map, hr₁.substitution]
    refine List.map_congr_left fun c hc => Contract.Laid.deployedCode (hr₁.laid c ?_)
    obtain ⟨i, -, hi⟩ := List.mem_filterMap.mp hc
    exact List.mem_of_getElem? hi
  have hcodes : vaultThenToken.resolve.toOption.map
      (fun r => ({ r with order := [1, 0] } : Registry).ordered.map fun c =>
        let st := c.imports.foldl
          (Splice.spanStep c.code.toList c.code.utf8ByteSize c.resolvedAddress) ([], 0)
        String.ofList (st.1 ++ Utf8.slice c.code.toList st.2 c.code.utf8ByteSize)) =
        some ["import 0x00000000000000ee\ncontract Token \x7b\x7d",
          "import 0x0000000000000002\nimport 0x00000000000000ee\ncontract Vault \x7b\x7d"] := by
    decide +kernel
  rw [h] at hcodes
  refine ⟨reachable_vaultThenToken, rfl, sort_vaultThenToken, ?_,
    plan_substitutes_imports reachable_vaultThenToken rfl sort_vaultThenToken⟩
  rw [hplan]
  exact Option.some.inj hcodes

end Registry

end ContractDeploy
