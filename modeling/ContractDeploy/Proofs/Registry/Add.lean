import ContractDeploy.Proofs.Registry.Plan

namespace ContractDeploy

namespace Program

variable {p : Program} {d : Declaration}

theorem declarationCount_eq (p : Program) : p.declarationCount = p.declarations.length := by
  rw [declarationCount, composites, interfaces,
    List.length_eq_length_filter_add (l := p.declarations) (·.isInterface)]
  omega

theorem contractName_of_eq_singleton (h : p.declarations = [d]) :
    p.contractName = if d.kind = .contract then d.name else "" := by
  simp only [contractName, composites, interfaces, h]
  cases hi : d.isInterface <;> by_cases hk : d.kind = .contract <;> simp [hi, hk]

end Program

namespace Contract

variable {n : Nat} {loc code acct : String} {tgt : Address} {args : List Json} {p : Program}
  {d : Declaration} {f : ParseFault}

theorem make_of_parse_error (h : Program.parse code = .error f) :
    make n loc code tgt acct args = .error (.parse loc (f.withContext loc)) := by
  simp [make, h, bind, Except.bind, Except.mapError]

theorem make_of_count (hp : Program.parse code = .ok p) (hn : p.declarations.length ≠ 1) :
    make n loc code tgt acct args = .error (.multipleDeclarations loc p.declarations.length) := by
  rw [← p.declarationCount_eq] at hn ⊢
  simp [make, hp, hn, bind, Except.bind, Except.mapError, throw, throwThe, MonadExceptOf.throw]

theorem make_of_eq_singleton (hp : Program.parse code = .ok p) (hd : p.declarations = [d]) :
    make n loc code tgt acct args =
      .ok ⟨n, if d.kind = .contract then d.name else "", loc, code, args, tgt, acct, p.pathImports,
        {}, {}⟩ := by
  have hn : p.declarationCount = 1 := by rw [p.declarationCount_eq, hd]; rfl
  simp [make, hp, hn, bind, Except.bind, Except.mapError, pure, Except.pure, SourceUnit.ofProgram,
    Program.contractName_of_eq_singleton hd]

end Contract

namespace Registry

variable {r : Registry} {sources : Sources} {loc acct code : String} {tgt : Address}
  {args : List Json} {bytes : List Nat}

theorem add_of_registered (h : ∃ c ∈ r.contracts, c.location = loc) :
    r.add sources loc tgt acct args = .error (.duplicateLocation loc) := by
  have hloc : (r.contractAt? loc).isSome := by
    cases hc : r.contractAt? loc
    case some => rfl
    case none =>
      obtain ⟨c, hc', hl⟩ := h
      exact absurd hl (contractAt?_eq_none.mp hc c hc')
  simp [add, hloc, throw, throwThe, MonadExceptOf.throw, Except.bind, bind]

section New

variable (hloc : ∀ c ∈ r.contracts, c.location ≠ loc)
include hloc

theorem add_of_not_found (hb : sources.files.find? loc = none) :
    r.add sources loc tgt acct args = .error (.load loc) := by
  simp [add, contractAt?_eq_none.mpr hloc, hb, throw, throwThe, MonadExceptOf.throw]

theorem add_of_decode_error (hb : sources.files.find? loc = some bytes)
    (hd : Utf8.decode bytes = .error e) :
    r.add sources loc tgt acct args = .error (.invalidEncoding loc e) := by
  simp [add, contractAt?_eq_none.mpr hloc, hb, hd, Except.mapError, Except.bind, bind]

theorem add_of_decode (hb : sources.files.find? loc = some bytes) (hd : Utf8.decode bytes = .ok code) :
    r.add sources loc tgt acct args = (Contract.make r.size loc code tgt acct args).map fun c =>
      (c, { r with contracts := r.contracts ++ [c], order := r.order ++ [c.id] }) := by
  cases hm : Contract.make r.size loc code tgt acct args <;>
    simp [add, contractAt?_eq_none.mpr hloc, hb, hd, hm, Except.mapError, Except.bind, bind,
      Except.map, pure, Except.pure]

theorem contractAt?_append (c : Contract) (hc : c.location = loc) (L : String) :
    ({ r with contracts := r.contracts ++ [c], order := r.order ++ [r.contracts.length] } :
      Registry).contractAt? L = if L = loc then some c else r.contractAt? L := by
  have hnone : r.contractAt? loc = none := contractAt?_eq_none.mpr hloc
  unfold contractAt? at hnone ⊢
  rw [List.find?_append]
  by_cases hL : L = loc
  · subst hL
    simp [hnone, hc]
  · simp [hL, hc, Ne.symm hL]

end New

-- Adding a contract checks, in this order, that its location is new (before the source is
-- looked up), that a source is registered there, that it is UTF-8, that it parses and that it
-- declares exactly one composite or interface; the first check that fails gives the error, and
-- an add that fails gives no registry. An add that passes appends the contract, numbered by its
-- position, to the contracts and to the order and finds it at its location. The contract is
-- named by its declaration if that declares a contract, and imports the quoted paths of its
-- code, in source order and with repeats.
theorem add_checks_in_order (r : Registry) (sources : Sources) (loc : String) (tgt : Address)
    (acct : String) (args : List Json) :
    ((∃ c ∈ r.contracts, c.location = loc) →
      r.add sources loc tgt acct args = .error (.duplicateLocation loc)) ∧
    ((∀ c ∈ r.contracts, c.location ≠ loc) →
      (sources.files.find? loc = none → r.add sources loc tgt acct args = .error (.load loc)) ∧
      ∀ bytes, sources.files.find? loc = some bytes →
        (∀ e, Utf8.decode bytes = .error e →
          r.add sources loc tgt acct args = .error (.invalidEncoding loc e)) ∧
        ∀ code, Utf8.decode bytes = .ok code →
          (∀ f, Program.parse code = .error f →
            r.add sources loc tgt acct args = .error (.parse loc (f.withContext loc))) ∧
          ∀ p, Program.parse code = .ok p →
            (p.declarations.length ≠ 1 → r.add sources loc tgt acct args =
              .error (.multipleDeclarations loc p.declarations.length)) ∧
            ∀ d, p.declarations = [d] → ∃ c,
              r.add sources loc tgt acct args = .ok (c,
                  { r with contracts := r.contracts ++ [c], order := r.order ++ [r.contracts.length] }) ∧
              c.id = r.contracts.length ∧ c.location = loc ∧ c.code = code ∧ c.target = tgt ∧
              c.accountName = acct ∧ c.args = args ∧ c.dependencies = {} ∧ c.aliases = {} ∧
              c.name = (if d.kind = .contract then d.name else "") ∧
              c.imports = p.imports.filterMap (fun i => i.location.path?.map (⟨·, i.span⟩)) ∧
              c.Laid ∧
              ∀ L, Registry.contractAt?
                  { r with contracts := r.contracts ++ [c], order := r.order ++ [r.contracts.length] } L =
                  if L = loc then some c else r.contractAt? L) := by
  refine ⟨add_of_registered, fun hloc => ⟨add_of_not_found hloc, fun bytes hb =>
    ⟨fun e he => add_of_decode_error hloc hb he, fun code hd => ?_⟩⟩⟩
  -- the code is read: what is left is making the contract
  rw [add_of_decode hloc hb hd]
  refine ⟨fun f hf => by rw [Contract.make_of_parse_error hf]; rfl,
    fun p hp => ⟨fun hn => by rw [Contract.make_of_count hp hn]; rfl, fun d hd => ?_⟩⟩
  have hm : Contract.make r.size loc code tgt acct args = .ok _ := Contract.make_of_eq_singleton hp hd
  refine ⟨_, by rw [hm]; rfl, rfl, rfl, rfl, rfl, rfl, rfl, rfl, rfl, rfl, rfl,
    Contract.laid_make hm, contractAt?_append hloc _ rfl⟩

end Registry

end ContractDeploy
