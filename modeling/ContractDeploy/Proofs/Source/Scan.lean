import ContractDeploy.Source.Scan
import ContractDeploy.Source.Unit
import ContractDeploy.Proofs.Source.Lexer
import Mathlib.Data.List.Basic

namespace ContractDeploy

namespace Scan

variable {eof t : Token} {ts : List Token} {imp : Import} {p : Program}

-- An import stands at the span of a token, and a quoted path only at a string.
def Matches (imp : Import) (t : Token) : Prop :=
  imp.span = t.span ∧ ∀ path, imp.location = .string path → t.kind = .string path

theorem locationOf_string (h : locationOf t = .ok (.string path)) : t.kind = .string path := by
  unfold locationOf at h
  split at h
  case h_1 hk =>
    cases h
    exact hk
  case h_2 => cases h
  case h_3 => cases h
  case h_4 =>
    split at h
    all_goals cases h

theorem readImport_matches (h : readImport eof ts = .ok (imp, k)) :
    ∃ j < k, Matches imp (tokenAt eof ts j) := by
  unfold readImport at h
  dsimp only at h
  split at h
  case h_1 hk =>
    simp only [pure, Except.pure, Except.ok.injEq, Prod.mk.injEq] at h
    obtain ⟨rfl, rfl⟩ := h
    exact ⟨0, Nat.one_pos, rfl, fun path hp => by cases hp; exact hk⟩
  case h_2 =>
    split at h
    case isTrue =>
      simp only [pure, Except.pure, Except.ok.injEq, Prod.mk.injEq] at h
      obtain ⟨rfl, rfl⟩ := h
      exact ⟨0, Nat.one_pos, rfl, fun path hp => by cases hp⟩
    case isFalse =>
      split at h
      case h_2 => cases h
      case h_1 name _ =>
        cases hm : moreNames eof ts.tail with
        | error e => simp [hm, bind, Except.bind] at h
        | ok mk =>
          obtain ⟨more, k'⟩ := mk
          simp only [hm, bind, Except.bind] at h
          split at h
          case isTrue =>
            cases hl : locationOf (tokenAt eof ts (k' + 2)) with
            | error e => simp [hl] at h
            | ok loc =>
              simp only [hl, pure, Except.pure, Except.ok.injEq, Prod.mk.injEq] at h
              obtain ⟨rfl, rfl⟩ := h
              exact ⟨k' + 2, by omega, rfl, fun path hp => locationOf_string (hp ▸ hl)⟩
          case isFalse =>
            split at h
            case isTrue =>
              simp only [pure, Except.pure, Except.ok.injEq, Prod.mk.injEq] at h
              obtain ⟨rfl, rfl⟩ := h
              exact ⟨0, Nat.one_pos, rfl, fun path hp => by cases hp⟩
            case isFalse => cases h

theorem tokenAt_of_le (hj : ts.length ≤ j) : tokenAt eof ts j = eof := by
  simp [tokenAt, List.getElem?_eq_none hj]

theorem scanFrom_nil_imports (h : scanFrom eof [] opened decls imports = .ok p) :
    p.imports = imports.reverse := by
  unfold scanFrom at h
  split at h
  case h_1 => cases h
  case h_2 =>
    cases h
    rfl

theorem scanFrom_matches (h : scanFrom eof ts opened decls imports = .ok p) :
    ∃ new toks, p.imports = imports.reverse ++ new ∧ toks.Sublist (ts ++ [eof]) ∧
      List.Forall₂ Matches new toks := by
  fun_induction scanFrom eof ts opened decls imports
  case case2 =>
    cases h
    exact ⟨[], [], by simp, List.nil_sublist _, .nil⟩
  case case8 _ _ _ t rest _ imp k hr _ ih =>
    -- the import takes its span from token `j` of those it reads
    have ⟨new, toks, hp, hs, hf⟩ := ih h
    have ⟨j, hjk, hm⟩ := readImport_matches hr
    refine ⟨imp :: new, tokenAt eof rest j :: toks, by simp [hp], ?_, .cons hm hf⟩
    refine List.Sublist.cons _ (show List.Sublist _ (rest ++ [eof]) from ?_)
    by_cases hj : j < rest.length
    · have hsplit : rest ++ [eof] = rest.take k ++ (rest.drop k ++ [eof]) := by
        rw [← List.append_assoc, List.take_append_drop]
      rw [hsplit, ← List.singleton_append]
      refine List.Sublist.append ?_ hs
      exact List.singleton_sublist.mpr (List.mem_take_iff_getElem.mpr ⟨j, by omega, by simp [tokenAt, List.getElem?_eq_getElem hj]⟩)
    · -- read past the tokens: `eof` is the last and nothing follows
      have hdrop : rest.drop k = [] := List.drop_eq_nil_of_le (by omega)
      rw [hdrop] at h
      have hnew : new = [] := by
        rw [scanFrom_nil_imports h] at hp
        simpa using hp
      subst hnew
      cases hf
      rw [tokenAt_of_le (by omega)]
      exact List.singleton_sublist.mpr (by simp)
  case case10 ih =>
    have ⟨new, toks, hp, hs, hf⟩ := ih h
    refine ⟨new, toks, hp, ?_, hf⟩
    exact (hs.trans ((List.drop_sublist _ _).append_right _)).cons _
  case case3 ih | case5 ih | case7 ih | case12 ih | case13 ih | case14 ih =>
    have ⟨new, toks, hp, hs, hf⟩ := ih h
    exact ⟨new, toks, hp, hs.cons _, hf⟩
  all_goals cases h

end Scan

namespace Program

variable {p : Program} {code : String}

-- What is known of an import's text: a quoted literal for a path.
def ImportSpells (imp : Import) (lex : List Char) : Prop :=
  ∀ path, imp.location = .string path → Lexer.Quoted lex

theorem parse_layout (h : parse code = .ok p) : Layout Import.span ImportSpells .start code.toList p.imports := by
  cases ht : Lexer.tokenize code with
  | error e => simp [parse, ht, bind, Except.bind] at h
  | ok ts =>
    simp only [parse, ht, bind, Except.bind, ofTokens] at h
    have hl := Lexer.tokenize_layout ht
    have ⟨new, toks, hp, hs, hf⟩ := Scan.scanFrom_matches h
    simp only [List.reverse_nil, List.nil_append] at hp
    cases hlast : ts.getLast? with
    | none =>
      have hts : ts = [] := List.getLast?_eq_none_iff.mp hlast
      subst hts
      have hnil : p.imports = [] := Scan.scanFrom_nil_imports h
      rw [hnil]
      exact .nil
    | some eof =>
      rw [hlast, Option.getD_some, List.dropLast_append_getLast? eof hlast] at hs
      rw [hp]
      refine (hl.sublist hs).forall₂ hf fun imp t lex hm hsp => ⟨hm.1, fun path hpath => ?_⟩
      exact hsp path (hm.2 path hpath)

theorem parse_pathImports (h : parse code = .ok p) :
    Layout SourceImport.span (fun _ => Lexer.Quoted) .start code.toList p.pathImports := by
  refine (parse_layout h).filterMap fun imp si lex hf hsp => ?_
  cases hloc : imp.location with
  | string path =>
    simp only [hloc, ImportLocation.path?, Option.map_some, Option.some.injEq] at hf
    subst hf
    exact ⟨rfl, hsp path hloc⟩
  | address t => simp [hloc, ImportLocation.path?] at hf
  | identifier n => simp [hloc, ImportLocation.path?] at hf

end Program

end ContractDeploy
