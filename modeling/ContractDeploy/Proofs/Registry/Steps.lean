import ContractDeploy.Registry
import ContractDeploy.Proofs.Table
import Mathlib.Data.List.Forall2

namespace ContractDeploy

theorem mapM_eq_ok_iff {α β ε : Type} {f : α → Except ε β} {l : List α} {bs : List β} :
    l.mapM f = .ok bs ↔ List.Forall₂ (fun a b => f a = .ok b) l bs := by
  induction l generalizing bs with
  | nil => cases bs <;> simp [pure, Except.pure]
  | cons a l ih =>
    rw [List.mapM_cons]
    cases hfa : f a with
    | error e => cases bs <;> simp [bind, Except.bind, hfa]
    | ok b =>
      cases hl : l.mapM f with
      | error e =>
        have : ¬List.Forall₂ (fun a b => f a = .ok b) l bs.tail := fun h' => by
          simpa [hl] using ih.mpr h'
        cases bs <;> simp_all [bind, Except.bind]
      | ok bs' =>
        have := ih.mp hl
        cases bs <;> simp_all [bind, Except.bind, pure, Except.pure]

namespace Contract

-- The fields fixed when a contract is added: resolving its imports changes only its
-- dependencies and aliases.
structure Keeps (c c' : Contract) : Prop where
  id : c'.id = c.id
  name : c'.name = c.name
  location : c'.location = c.location
  code : c'.code = c.code
  args : c'.args = c.args
  target : c'.target = c.target
  accountName : c'.accountName = c.accountName
  imports : c'.imports = c.imports

-- The locations a contract imports, in order.
def locations (c : Contract) : List String := c.imports.map (·.location)

theorem Keeps.refl (c : Contract) : c.Keeps c := ⟨rfl, rfl, rfl, rfl, rfl, rfl, rfl, rfl⟩

theorem Keeps.trans (h₁ : Keeps c₁ c₂) (h₂ : Keeps c₂ c₃) : Keeps c₁ c₃ :=
  ⟨h₂.id.trans h₁.id, h₂.name.trans h₁.name, h₂.location.trans h₁.location,
    h₂.code.trans h₁.code, h₂.args.trans h₁.args, h₂.target.trans h₁.target,
    h₂.accountName.trans h₁.accountName, h₂.imports.trans h₁.imports⟩

theorem Keeps.locations {c c' : Contract} (h : c.Keeps c') : c'.locations = c.locations := by
  simp [Contract.locations, h.imports]

-- No location is both a dependency and an alias of the contract.
def Exclusive (c : Contract) : Prop := ∀ L a, (L, a) ∈ c.aliases.toList → L ∉ c.dependencies.keys

section
variable {n : Nat} {loc code acct : String} {tgt : Address} {args : List Json} {c : Contract}

theorem make_eq_ok (h : make n loc code tgt acct args = .ok c) :
    ∃ p, Program.parse code = .ok p ∧ p.declarationCount = 1 ∧
      c = ⟨n, (SourceUnit.ofProgram p).name, loc, code, args, tgt, acct,
        (SourceUnit.ofProgram p).imports, {}, {}⟩ := by
  cases hp : Program.parse code with
  | error e => simp [make, hp, bind, Except.bind, Except.mapError] at h
  | ok p =>
    by_cases hn : p.declarationCount = 1
    · simp [make, hp, hn, bind, Except.bind, Except.mapError, pure, Except.pure] at h
      exact ⟨p, rfl, hn, h.symm⟩
    · simp [make, hp, hn, bind, Except.bind, Except.mapError, throw, throwThe,
        MonadExceptOf.throw] at h

end

end Contract

-- `c` records the resolution of `L`: its entry, and no entry of the other kind.
def Resolution.Recorded (c : Contract) (L : String) : Resolution → Prop
  | .dependency d => c.dependencies.find? L = some d ∧ c.aliases.find? L = none
  | .alias a => c.aliases.find? L = some a ∧ c.dependencies.find? L = none

namespace Registry

-- The contract after recording the resolutions `res` of its imports, in order.
def recordAll (c : Contract) (res : List (String × Resolution)) : Contract :=
  res.foldl (fun c p => Resolution.record c p.1 p.2) c

section Record

variable {c : Contract} {res : List (String × Resolution)}

theorem keeps_record (c : Contract) (L : String) (x : Resolution) :
    c.Keeps (Resolution.record c L x) := by
  cases x <;> exact ⟨rfl, rfl, rfl, rfl, rfl, rfl, rfl, rfl⟩

theorem keeps_recordAll : c.Keeps (recordAll c res) := by
  induction res generalizing c
  case nil => exact .refl c
  case cons p res ih => exact (keeps_record c p.1 p.2).trans ih

theorem mem_dependencies_recordAll (h : (L, d) ∈ (recordAll c res).dependencies.toList) :
    (L, d) ∈ c.dependencies.toList ∨ (L, .dependency d) ∈ res := by
  induction res generalizing c
  case nil => exact .inl h
  case cons p res ih =>
    obtain ⟨L', x⟩ := p
    rcases ih h with h | h
    case inr => exact .inr (List.mem_cons_of_mem _ h)
    case inl =>
      rcases x with d' | a
      · rcases Table.mem_insert h with he | he
        · simp only [Prod.mk.injEq] at he
          obtain ⟨rfl, rfl⟩ := he
          exact .inr (List.mem_cons_self ..)
        · exact .inl he
      · exact .inl (Table.mem_erase.mp h).1

theorem mem_aliases_recordAll (h : (L, a) ∈ (recordAll c res).aliases.toList) :
    (L, a) ∈ c.aliases.toList ∨ (L, .alias a) ∈ res := by
  induction res generalizing c
  case nil => exact .inl h
  case cons p res ih =>
    obtain ⟨L', x⟩ := p
    rcases ih h with h | h
    case inr => exact .inr (List.mem_cons_of_mem _ h)
    case inl =>
      rcases x with d | a'
      · exact .inl (Table.mem_erase.mp h).1
      · rcases Table.mem_insert h with he | he
        · simp only [Prod.mk.injEq] at he
          obtain ⟨rfl, rfl⟩ := he
          exact .inr (List.mem_cons_self ..)
        · exact .inl he

theorem exclusive_record (hc : c.Exclusive) (L : String) (x : Resolution) :
    (Resolution.record c L x).Exclusive := by
  intro L' a ha hd
  rcases x with d | a'
  · have ⟨ha, hne⟩ := Table.mem_erase.mp ha
    rcases Table.mem_keys_insert hd with rfl | hd
    · exact hne rfl
    · exact hc L' a ha hd
  · have ⟨hd, hne⟩ := Table.mem_keys_erase.mp hd
    rcases Table.mem_insert ha with he | ha
    · exact hne (Prod.mk.inj he).1
    · exact hc L' a ha hd

theorem exclusive_recordAll (hc : c.Exclusive) : (recordAll c res).Exclusive := by
  induction res generalizing c
  case nil => exact hc
  case cons p res ih => exact ih (exclusive_record hc p.1 p.2)

theorem find?_recordAll_of_not_mem (c : Contract) (hL : ∀ x, (L, x) ∉ res) :
    (recordAll c res).dependencies.find? L = c.dependencies.find? L ∧
      (recordAll c res).aliases.find? L = c.aliases.find? L := by
  induction res generalizing c
  case nil => exact ⟨rfl, rfl⟩
  case cons p res ih =>
    obtain ⟨L', x⟩ := p
    have hne : L ≠ L' := fun he => hL x (he ▸ List.mem_cons_self ..)
    have ⟨h₁, h₂⟩ := ih (Resolution.record c L' x) fun y hy => hL y (List.mem_cons_of_mem _ hy)
    refine ⟨h₁.trans ?_, h₂.trans ?_⟩
    all_goals cases x <;> simp [Resolution.record, Contract.addDependency, Contract.addAlias,
      Table.find?_insert_of_ne _ _ hne, Table.find?_erase_of_ne _ hne]

-- Where every resolution of `L` is the same, the last one decides its entries.
-- Where every resolution of `L` is `x`, recording them leaves `x` recorded: the last one
-- decides the entries of `L`.
theorem recorded_recordAll (hL : (L, x) ∈ res) (hx : ∀ y, (L, y) ∈ res → y = x) :
    Resolution.Recorded (recordAll c res) L x := by
  induction res generalizing c
  case nil => simp at hL
  case cons p res ih =>
    obtain ⟨L', y⟩ := p
    by_cases hrest : ∃ z, (L, z) ∈ res
    case pos =>
      have ⟨z, hz⟩ := hrest
      have hz' := hx z (List.mem_cons_of_mem _ hz)
      exact ih (hz' ▸ hz) fun w hw => hx w (List.mem_cons_of_mem _ hw)
    case neg =>
      have hlast : (L', y) = (L, x) := by
        rcases List.mem_cons.mp hL with h | h
        · exact h.symm
        · exact absurd ⟨_, h⟩ hrest
      obtain ⟨hL', hy⟩ := Prod.mk.inj hlast
      subst hL' hy
      -- no later resolution of `L'`: its entries are those the first one records
      have ⟨h₁, h₂⟩ := find?_recordAll_of_not_mem (Resolution.record c L' y)
        fun z hz => hrest ⟨z, hz⟩
      show Resolution.Recorded (recordAll (Resolution.record c L' y) res) L' y
      rcases y with d | a
      · simp only [Resolution.Recorded, h₁, h₂]
        simp [Resolution.record, Contract.addDependency]
      · simp only [Resolution.Recorded, h₁, h₂]
        simp [Resolution.record, Contract.addAlias]

end Record

section Operations

variable {r r' : Registry} {L loc acct : String} {c : Contract} {tgt : Address} {args : List Json}

theorem add_eq_ok {sources : Sources} (h : r.add sources loc tgt acct args = .ok (c, r')) :
    r.contractAt? loc = none ∧
      (∃ bytes code, sources.files.find? loc = some bytes ∧ Utf8.decode bytes = .ok code ∧
        Contract.make r.size loc code tgt acct args = .ok c) ∧
      r' = { r with contracts := r.contracts ++ [c], order := r.order ++ [c.id] } := by
  by_cases hloc : (r.contractAt? loc).isSome
  · simp [add, hloc, throw, throwThe, MonadExceptOf.throw, Except.bind, bind] at h
  cases hb : sources.files.find? loc with
  | none => simp [add, hloc, hb, throw, throwThe, MonadExceptOf.throw] at h
  | some bytes =>
    cases hd : Utf8.decode bytes with
    | error e => simp [add, hloc, hb, hd, Except.mapError, Except.bind, bind] at h
    | ok code =>
      cases hm : Contract.make r.size loc code tgt acct args with
      | error e => simp [add, hloc, hb, hd, hm, Except.mapError, Except.bind, bind] at h
      | ok c' =>
        simp [add, hloc, hb, hd, hm, Except.mapError, Except.bind, bind, pure, Except.pure] at h
        obtain ⟨rfl, rfl⟩ := h
        exact ⟨by simpa using hloc, ⟨bytes, code, rfl, hd, hm⟩, rfl⟩

theorem contractAt?_eq_some (h : r.contractAt? L = some c) : c ∈ r.contracts ∧ c.location = L :=
  ⟨List.mem_of_find?_eq_some h, by simpa using List.find?_some h⟩

theorem contractAt?_eq_none : r.contractAt? L = none ↔ ∀ c ∈ r.contracts, c.location ≠ L := by
  simp [contractAt?, List.find?_eq_none]

theorem resolution?_eq_some : r.resolution? L = some x ↔
    (∃ c, r.contractAt? L = some c ∧ x = .dependency ⟨c.id, c.name, c.target⟩) ∨
      (r.contractAt? L = none ∧ ∃ a, r.aliases.find? L = some a ∧ x = .alias a) := by
  cases hc : r.contractAt? L
  case some c => simp [resolution?, hc, eq_comm]
  case none =>
    simp only [resolution?, hc, reduceCtorEq, false_and, exists_false, true_and, false_or]
    cases r.aliases.find? L <;> simp [eq_comm]

theorem resolutionsOf_eq_ok (h : r.resolutionsOf c = .ok res) :
    List.Forall₂ (fun i p => p.1 = i.location ∧ r.resolution? i.location = some p.2) c.imports res := by
  refine (mapM_eq_ok_iff.mp h).imp fun i p hp => ?_
  split at hp
  case h_1 x hx => simp only [Except.ok.injEq] at hp; exact hp ▸ ⟨rfl, hx⟩
  case h_2 => cases hp

theorem mem_resolutionsOf (h : r.resolutionsOf c = .ok res) (hp : p ∈ res) :
    p.1 ∈ c.locations ∧ r.resolution? p.1 = some p.2 := by
  have hf := resolutionsOf_eq_ok h
  unfold Contract.locations
  generalize c.imports = is at hf
  clear h
  induction hf
  case nil => simp at hp
  case cons i p' _ _ hR _ ih =>
    rcases List.mem_cons.mp hp with rfl | hp
    · exact ⟨by simp [hR.1], hR.1 ▸ hR.2⟩
    · have ⟨h₁, h₂⟩ := ih hp
      exact ⟨List.mem_cons_of_mem _ h₁, h₂⟩

theorem exists_mem_resolutionsOf (h : r.resolutionsOf c = .ok res) (hi : i ∈ c.imports) :
    ∃ x, (i.location, x) ∈ res := by
  have hf := resolutionsOf_eq_ok h
  generalize c.imports = is at hf hi
  clear h
  induction hf
  case nil => simp at hi
  case cons i' p' _ _ hR _ ih =>
    rcases List.mem_cons.mp hi with rfl | hi
    · exact ⟨p'.2, by simp [← hR.1]⟩
    · have ⟨x, hx⟩ := ih hi
      exact ⟨x, List.mem_cons_of_mem _ hx⟩

theorem resolve_eq_ok (h : r.resolve = .ok r') :
    r'.aliases = r.aliases ∧ r'.substitution = r.substitution ∧ r'.order = r.order ∧
      ∃ all, List.Forall₂ (fun c res => r.resolutionsOf c = .ok res) r.contracts all ∧
        r'.contracts = (r.contracts.zip all).map fun p => recordAll p.1 p.2 := by
  cases hm : r.contracts.mapM r.resolutionsOf with
  | error e => simp [resolve, hm, bind, Except.bind] at h
  | ok all =>
    simp only [resolve, hm, bind, Except.bind, pure, Except.pure, Except.ok.injEq] at h
    subst h
    exact ⟨rfl, rfl, rfl, all, mapM_eq_ok_iff.mp hm, rfl⟩

theorem resolve_contracts (h : r.resolve = .ok r') :
    r'.contracts.length = r.contracts.length ∧
      ∀ i (hi : i < r.contracts.length) (hi' : i < r'.contracts.length),
        ∃ res, r.resolutionsOf r.contracts[i] = .ok res ∧
          r'.contracts[i] = recordAll r.contracts[i] res := by
  obtain ⟨-, -, -, all, hall, hc⟩ := resolve_eq_ok h
  have hlen := hall.length_eq
  refine ⟨by simp [hc, hlen], fun i hi hi' => ?_⟩
  have hi₂ : i < all.length := hlen ▸ hi
  exact ⟨all[i], by simpa using hall.get hi hi₂, by simp [hc]⟩

-- After resolving, a contract records, for each location it imports, what that location
-- resolves to.
theorem resolve_recorded (h : r.resolve = .ok r') (hi : i < r.contracts.length)
    (hi' : i < r'.contracts.length) (hL : L ∈ r.contracts[i].locations)
    (hx : r.resolution? L = some x) : Resolution.Recorded r'.contracts[i] L x := by
  have ⟨res, hr, he⟩ := (resolve_contracts h).2 i hi hi'
  have ⟨imp, himp, hloc⟩ := List.mem_map.mp hL
  have ⟨y, hy⟩ := exists_mem_resolutionsOf hr himp
  rw [hloc] at hy
  -- every resolution recorded for `L` is what `L` resolves to
  have hall : ∀ z, (L, z) ∈ res → z = x := fun z hz =>
    Option.some.inj ((mem_resolutionsOf hr hz).2.symm.trans hx)
  rw [he]
  exact recorded_recordAll (hall y hy ▸ hy) hall

theorem exists_mapM_eq_ok {α β ε : Type} {f : α → Except ε β} {l : List α} :
    (∃ bs, l.mapM f = .ok bs) ↔ ∀ a ∈ l, ∃ b, f a = .ok b := by
  induction l with
  | nil => simp [pure, Except.pure]
  | cons a l ih =>
    rw [List.mapM_cons]
    cases hfa : f a with
    | error e => simp [bind, Except.bind, hfa]
    | ok b =>
      cases hl : l.mapM f with
      | error e => simp_all [bind, Except.bind]
      | ok bs => simp_all [bind, Except.bind, pure, Except.pure]

theorem exists_resolutionsOf_eq_ok :
    (∃ res, r.resolutionsOf c = .ok res) ↔ ∀ i ∈ c.imports, (r.resolution? i.location).isSome := by
  rw [resolutionsOf, exists_mapM_eq_ok]
  refine forall₂_congr fun i _ => ?_
  cases r.resolution? i.location <;> simp

theorem resolve_isOk_iff :
    (∃ r', r.resolve = .ok r') ↔ ∀ c ∈ r.contracts, ∀ i ∈ c.imports, (r.resolution? i.location).isSome := by
  constructor
  · rintro ⟨r', h⟩ c hc
    obtain ⟨-, -, -, all, hall, -⟩ := resolve_eq_ok h
    have ⟨res, hres⟩ := exists_mapM_eq_ok.mp ⟨all, mapM_eq_ok_iff.mpr hall⟩ c hc
    exact exists_resolutionsOf_eq_ok.mp ⟨res, hres⟩
  · intro hall
    have ⟨all, hm⟩ := exists_mapM_eq_ok.mpr fun c hc => exists_resolutionsOf_eq_ok.mpr (hall c hc)
    exact ⟨{ r with contracts := (r.contracts.zip all).map fun p => recordAll p.1 p.2 }, by
      simp [resolve, hm, bind, Except.bind, pure, Except.pure, recordAll]⟩

theorem mapM_eq_error_iff {α β ε : Type} {f : α → Except ε β} {l : List α} {e : ε} :
    l.mapM f = .error e ↔
      ∃ pre a post, l = pre ++ a :: post ∧ (∀ x ∈ pre, ∃ b, f x = .ok b) ∧ f a = .error e := by
  constructor
  · intro h
    induction l with
    | nil => simp [pure, Except.pure] at h
    | cons a l ih =>
      rw [List.mapM_cons] at h
      cases hfa : f a with
      | error e' =>
        simp only [hfa, bind, Except.bind, Except.error.injEq] at h
        exact ⟨[], a, l, rfl, by simp, h ▸ hfa⟩
      | ok b =>
        cases hl : l.mapM f with
        | error e' =>
          -- the first item passes: the failure is further on
          simp only [hfa, hl, bind, Except.bind, Except.error.injEq] at h
          obtain ⟨pre, a', post, rfl, hpre, ha'⟩ := ih (h ▸ hl)
          refine ⟨a :: pre, a', post, rfl, fun x hx => ?_, ha'⟩
          rcases List.mem_cons.mp hx with rfl | hx
          · exact ⟨b, hfa⟩
          · exact hpre x hx
        | ok bs => simp [hfa, hl, bind, Except.bind, pure, Except.pure] at h
  · rintro ⟨pre, a, post, rfl, hpre, ha⟩
    obtain ⟨bs, hbs⟩ := exists_mapM_eq_ok.mpr hpre
    simp [List.mapM_append, hbs, List.mapM_cons, ha, bind, Except.bind]

theorem mapM_eq_error {α β ε : Type} {f : α → Except ε β} {l : List α} {e : ε}
    (h : l.mapM f = .error e) : ∃ a ∈ l, f a = .error e := by
  obtain ⟨pre, a, post, rfl, -, ha⟩ := mapM_eq_error_iff.mp h
  exact ⟨a, by simp, ha⟩

theorem resolve_eq_error_iff : r.resolve = .error e ↔ r.contracts.mapM r.resolutionsOf = .error e := by
  cases hm : r.contracts.mapM r.resolutionsOf <;>
    simp [resolve, hm, bind, Except.bind, pure, Except.pure]

theorem resolve_eq_error (h : r.resolve = .error e) :
    ∃ c ∈ r.contracts, ∃ i ∈ c.imports, r.resolution? i.location = none ∧
      e = .unresolvedImport c.name i.location := by
  obtain ⟨c, hc, hrc⟩ := mapM_eq_error (resolve_eq_error_iff.mp h)
  obtain ⟨i, hi, hri⟩ := mapM_eq_error hrc
  refine ⟨c, hc, i, hi, ?_⟩
  cases hx : r.resolution? i.location with
  | some x => simp [hx] at hri
  | none =>
    simp only [hx, Except.error.injEq] at hri
    exact ⟨rfl, hri.symm⟩

end Operations

end Registry

end ContractDeploy
