import ContractDeploy.Proofs.Registry.Add

namespace ContractDeploy.Contract

variable {n : Nat} {loc s acct : String} {tgt : Address} {args : List Json} {c c' : Contract}

theorem Laid.deployedCode_spans (hl : c.Laid) :
    ∃ gaps lexes tail, c.code.toList = weave gaps lexes tail ∧ gaps.length = c.imports.length ∧
      List.Forall₂ (fun i lex => Lexer.Quoted lex ∧
        lex = Utf8.slice c.code.toList i.span.start.offset i.span.stop.offset) c.imports lexes ∧
      (c.deployedCode .importSpans).toList =
        weave gaps (List.zipWith (Splice.piece c.resolvedAddress) c.imports lexes) tail :=
  substituteSpans_weave hl c.resolvedAddress

-- The code a contract made from the source `s` deploys with, substituting at the import spans,
-- whatever entries it records: `s` with the literal of each import that resolves, exactly as
-- written, replaced by the address literal, and every other character in place, the literals
-- of imports that do not resolve included. A contract just made records nothing and deploys `s`.
theorem deployedCode_importSpans (h : make n loc s tgt acct args = .ok c) (hk : c.Keeps c') :
    (∃ gaps lexes tail, s.toList = weave gaps lexes tail ∧ gaps.length = c.imports.length ∧
      List.Forall₂ (fun i lex => Lexer.Quoted lex ∧
        lex = Utf8.slice s.toList i.span.start.offset i.span.stop.offset) c.imports lexes ∧
      (c'.deployedCode .importSpans).toList =
        weave gaps (List.zipWith (Splice.piece c'.resolvedAddress) c.imports lexes) tail) ∧
    c.deployedCode .importSpans = s := by
  have hl := laid_make h
  obtain ⟨p, -, -, rfl⟩ := make_eq_ok h
  constructor
  · have hspans := (hk.laid hl).deployedCode_spans
    rwa [hk.code, hk.imports] at hspans
  · -- nothing resolves: every literal stays
    obtain ⟨gaps, lexes, tail, hs, -, hlex, hnew⟩ := hl.deployedCode_spans
    rw [Splice.zipWith_piece_of_none (fun i _ => rfl) hlex.length_eq.symm, ← hs] at hnew
    exact String.toList_inj.mp hnew

-- `A` imports `b.cdc`, which an alias resolves here, and `c.cdc`, which stays unresolved; a
-- comment names `b.cdc` too.
def importingSource : String := "import \"b.cdc\"\nimport \"c.cdc\"\n// \"b.cdc\"\ncontract A {}"

def importingProgram : Program :=
  ⟨[⟨.contract, false, "A", ⟨⟨4, 1, 41⟩, ⟨4, 11, 51⟩⟩⟩],
    [⟨[], .string "b.cdc", ⟨⟨1, 8, 7⟩, ⟨1, 15, 14⟩⟩⟩,
      ⟨[], .string "c.cdc", ⟨⟨2, 8, 22⟩, ⟨2, 15, 29⟩⟩⟩]⟩

def importing : Contract :=
  ⟨0, "A", "a.cdc", importingSource, [], default, "", importingProgram.pathImports, {}, {}⟩

def importingAliased : Contract := { importing with aliases := Table.empty.insert "b.cdc" ⟨1⟩ }

theorem parse_importingSource : Program.parse importingSource = .ok importingProgram := by
  have h : (Program.parse importingSource).toOption = some importingProgram := by decide +kernel
  revert h
  cases Program.parse importingSource <;> simp [Except.toOption]

theorem deployedCode_importSpans_aliased :
    make 0 "a.cdc" importingSource default "" [] = .ok importing ∧ importing.Keeps importingAliased ∧
      ((∃ gaps lexes tail, importingSource.toList = weave gaps lexes tail ∧
        gaps.length = importing.imports.length ∧
        List.Forall₂ (fun i lex => Lexer.Quoted lex ∧
          lex = Utf8.slice importingSource.toList i.span.start.offset i.span.stop.offset)
          importing.imports lexes ∧
        (importingAliased.deployedCode .importSpans).toList =
          weave gaps (List.zipWith (Splice.piece importingAliased.resolvedAddress) importing.imports lexes)
            tail) ∧
      importing.deployedCode .importSpans = importingSource) :=
  have h : make 0 "a.cdc" importingSource default "" [] = .ok importing :=
    make_of_eq_singleton parse_importingSource rfl
  have hk : importing.Keeps importingAliased := ⟨rfl, rfl, rfl, rfl, rfl, rfl, rfl, rfl⟩
  ⟨h, hk, deployedCode_importSpans h hk⟩

end ContractDeploy.Contract
