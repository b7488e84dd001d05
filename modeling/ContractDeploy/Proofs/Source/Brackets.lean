import ContractDeploy.Proofs.Source.Positions
import Mathlib.Data.List.Induction

namespace ContractDeploy

def bracketStep (os : List Char) (c : Char) : Option (List Char) :=
  if isOpening c then some (c :: os)
  else match os with
    | o :: os => if (o, c) ∈ bracketPairs then some os else none
    | [] => none

def openAfter (b : List Char) : Option (List Char) := b.foldlM bracketStep []

variable {o c : Char} {os : List Char} {b : List Char}

theorem isOpening_of_pair (hp : (o, c) ∈ bracketPairs) : isOpening o = true ∧ isOpening c = false := by
  simp only [bracketPairs, List.mem_cons, Prod.mk.injEq, List.not_mem_nil, or_false] at hp
  rcases hp with ⟨rfl, rfl⟩ | ⟨rfl, rfl⟩ | ⟨rfl, rfl⟩ <;> decide

theorem isClosing_of_pair (hp : (o, c) ∈ bracketPairs) : isClosing c = true := by
  simp only [bracketPairs, List.mem_cons, Prod.mk.injEq, List.not_mem_nil, or_false] at hp
  rcases hp with ⟨rfl, rfl⟩ | ⟨rfl, rfl⟩ | ⟨rfl, rfl⟩ <;> decide

theorem exists_pair_of_isOpening (h : isOpening o = true) : ∃ c, (o, c) ∈ bracketPairs := by
  simp only [isOpening, bracketPairs, List.map_cons, List.map_nil, List.contains_cons,
    List.contains_nil, Bool.or_false, Bool.or_eq_true, beq_iff_eq] at h
  rcases h with rfl | rfl | rfl
  exacts [⟨'\x7d', by decide⟩, ⟨')', by decide⟩, ⟨']', by decide⟩]

theorem isOpening_of_isClosing (h : isClosing c = true) : isOpening c = false := by
  simp only [isClosing, bracketPairs, List.map_cons, List.map_nil, List.contains_cons,
    List.contains_nil, Bool.or_false, Bool.or_eq_true, beq_iff_eq] at h
  rcases h with rfl | rfl | rfl <;> decide

theorem foldlM_balanced (h : Balanced b) (os : List Char) : b.foldlM bracketStep os = some os := by
  induction h generalizing os with
  | nil => rfl
  | @wrap o c b hp _ ih =>
    have ⟨ho, hc⟩ := isOpening_of_pair hp
    simp [List.foldlM_append, bracketStep, ho, hc, hp, ih]
  | append _ _ iha ihb => simp [List.foldlM_append, iha, ihb]

theorem foldlM_nested (h : Nested b os) : b.foldlM bracketStep [] = some os := by
  induction h with
  | balanced hb => exact foldlM_balanced hb []
  | @opened a b os o c _ hp hb ih =>
    simp [List.foldlM_append, ih, bracketStep, (isOpening_of_pair hp).1, foldlM_balanced hb]

theorem nested_of_foldlM (h : b.foldlM bracketStep [] = some os) : Nested b os := by
  induction b using List.reverseRecOn generalizing os with
  | nil =>
    cases h
    exact .balanced .nil
  | append_singleton b c ih =>
    rw [List.foldlM_append] at h
    cases hb : b.foldlM bracketStep [] with
    | none => simp [hb] at h
    | some os' =>
      simp only [hb, Option.bind_eq_bind, Option.bind_some, List.foldlM_cons, List.foldlM_nil] at h
      unfold bracketStep at h
      split at h
      case isTrue ho =>
        obtain ⟨c', hp⟩ := exists_pair_of_isOpening ho
        cases h
        exact (ih hb).push hp
      case isFalse =>
        split at h
        case h_1 o more =>
          split at h
          case isTrue hp =>
            cases h
            exact (ih hb).pop hp
          case isFalse => simp at h
        case h_2 => simp at h

theorem nested_iff_foldlM : Nested b os ↔ b.foldlM bracketStep [] = some os :=
  ⟨foldlM_nested, nested_of_foldlM⟩

theorem balanced_iff_openAfter : Balanced b ↔ openAfter b = some [] := by
  rw [openAfter, ← nested_iff_foldlM]
  exact ⟨.balanced, fun h => (h.balanced_iff).mpr rfl⟩

instance : DecidablePred Balanced := fun _ => decidable_of_iff _ balanced_iff_openAfter.symm

example : Balanced ['\x7b', '(', ')', '[', ']', '\x7d'] := by decide

example : ¬Balanced ['(', ']'] := by decide

namespace Token

def mark? (t : Token) : Option (Char × Position) := t.bracket?.map fun c => (c, t.span.start)

end Token

def marks (ts : List Token) : List (Char × Position) := ts.filterMap Token.mark?

section Marks

variable {t : Token} {ts : List Token}

@[simp] theorem marks_append (ts us : List Token) : marks (ts ++ us) = marks ts ++ marks us := by
  simp [marks]

theorem map_marks (ts : List Token) : (marks ts).map Prod.fst = brackets ts := by
  simp [marks, brackets, Token.mark?, List.map_filterMap, Function.comp_def]

theorem marks_singleton_of_bracket (h : t.bracket? = some c) : marks [t] = [(c, t.span.start)] := by
  simp [marks, Token.mark?, h]

theorem marks_singleton_of_none (h : t.bracket? = none) : marks [t] = [] := by
  simp [marks, Token.mark?, h]

theorem marks_eq_nil (h : brackets ts = []) : marks ts = [] := by
  rw [← map_marks] at h
  exact List.map_eq_nil_iff.mp h

end Marks

-- `Open ms os`: in the brackets `ms`, each closing one closes the innermost open bracket, and `os`
-- are left open, innermost first, each with the position it opened at.
inductive Open : List (Char × Position) → List (Char × Position) → Prop
  | nil : Open [] []
  | push {ms os : List (Char × Position)} {o c : Char} {p : Position} : Open ms os →
      (o, c) ∈ bracketPairs → Open (ms ++ [(o, p)]) ((o, p) :: os)
  | pop {ms os : List (Char × Position)} {o c : Char} {q p : Position} : Open ms ((o, q) :: os) →
      (o, c) ∈ bracketPairs → Open (ms ++ [(c, p)]) os

-- The first fault in the brackets `ms`, as reported: a closing bracket with none open, one that
-- does not close the innermost open bracket, named with that bracket and where it opened, or else,
-- at the end, the innermost bracket left open.
inductive BracketFault : List (Char × Position) → ParseFault → Prop
  | unmatched {pre post : List (Char × Position)} {c : Char} {p : Position} : Open pre [] →
      isClosing c = true →
      BracketFault (pre ++ (c, p) :: post) ⟨.syntaxError, p, s!"Unmatched '{c}'", none⟩
  | mismatched {pre post os : List (Char × Position)} {o c : Char} {q p : Position} :
      Open pre ((o, q) :: os) → isClosing c = true → (o, c) ∉ bracketPairs →
      BracketFault (pre ++ (c, p) :: post)
        ⟨.syntaxError, p, s!"Mismatched '{c}', '{o}' opened at {q.display} is still open", none⟩
  | unclosed {ms os : List (Char × Position)} {o : Char} {q : Position} : Open ms ((o, q) :: os) →
      BracketFault ms ⟨.syntaxError, q, s!"Unclosed '{o}'", none⟩

section Faults

variable {ms os : List (Char × Position)} {e : ParseFault}

theorem Open.nested (h : Open ms os) : Nested (ms.map Prod.fst) (os.map Prod.fst) := by
  induction h with
  | nil => exact .balanced .nil
  | push _ hp ih => simpa using ih.push hp
  | pop _ hp ih => simpa using ih.pop hp

theorem Open.balanced (h : Open ms []) : Balanced (ms.map Prod.fst) :=
  h.nested.balanced_iff.mpr rfl

theorem BracketFault.not_balanced (h : BracketFault ms e) : ¬Balanced (ms.map Prod.fst) := by
  rw [balanced_iff_openAfter, openAfter]
  cases h with
  | unmatched hpre hc =>
    simp [List.foldlM_append, foldlM_nested hpre.nested, bracketStep, isOpening_of_isClosing hc]
  | mismatched hpre hc hno =>
    simp [List.foldlM_append, foldlM_nested hpre.nested, bracketStep, isOpening_of_isClosing hc, hno]
  | unclosed hms => simp [foldlM_nested hms.nested]

theorem BracketFault.kind (h : BracketFault ms e) : e.kind = .syntaxError := by
  cases h <;> rfl

end Faults

namespace Scan

-- What the scan of the tokens `toks` before the end `eof` ends with, as far as brackets go: a
-- program only when they are well nested; else the first bracket fault, or the fault of a reader at
-- a token before which the brackets balance.
def BracketsChecked (eof : Token) (toks : List Token) : Except ParseFault Program → Prop
  | .ok _ => Open (marks toks) []
  | .error e => BracketFault (marks toks) e ∨
      ∃ x ≤ toks.length, TopLevel toks x ∧ ∃ what, e = expected (tokenAt eof toks x) what

variable {eof t : Token} {toks pre rest : List Token} {e : ParseFault} {j k : Nat}
  {opened : List (Char × Position)}

theorem tokenAt_append (eof : Token) (pre rest : List Token) (j : Nat) :
    tokenAt eof (pre ++ rest) (pre.length + j) = tokenAt eof rest j := by
  simp [tokenAt, List.getElem?_append_right]

theorem Misread.le_length (h : Misread eof ts e j) : j ≤ ts.length := by
  by_contra hj
  obtain ⟨u, hu, -⟩ := h.readable ts.length (by omega)
  simp at hu

-- A reader started at a top-level keyword stops at a token before which the brackets balance:
-- the reader takes no bracket.
theorem misread_topLevel (hts : toks = pre ++ t :: rest) (ht : t.bracket? = none)
    (hpre : Open (marks pre) []) (h : Misread eof rest e j) :
    ∃ x ≤ toks.length, TopLevel toks x ∧ ∃ what, e = expected (tokenAt eof toks x) what := by
  have hj := h.le_length
  obtain ⟨what, rfl⟩ := h.fault
  refine ⟨pre.length + (j + 1), by simp [hts]; omega, ?_, what, ?_⟩
  · have htake : toks.take (pre.length + (j + 1)) = pre ++ t :: rest.take j := by
      rw [hts, List.take_append, List.take_of_length_le (by omega), Nat.add_sub_cancel_left,
        List.take_succ_cons]
    rw [TopLevel, htake, brackets_read ht hj h.readable, ← map_marks]
    exact hpre.balanced
  · rw [hts, tokenAt_append]
    rfl

theorem marks_read (ht : t.bracket? = none) (hk : k ≤ rest.length)
    (hr : ∀ y < k, ∃ u, rest[y]? = some u ∧ Readable u) :
    marks (pre ++ t :: rest.take k) = marks pre := by
  have hb : brackets ([] ++ t :: rest.take k) = brackets [] := brackets_read ht hk hr
  rw [List.nil_append, brackets_nil] at hb
  rw [marks_append, marks_eq_nil hb, List.append_nil]

theorem open_skip (hts : toks = pre ++ t :: rest) (ht : t.bracket? = none)
    (hopen : Open (marks pre) opened) : toks = (pre ++ [t]) ++ rest ∧ Open (marks (pre ++ [t])) opened := by
  refine ⟨by simp [hts], ?_⟩
  rwa [marks_append, marks_singleton_of_none ht, List.append_nil]

theorem open_read (hts : toks = pre ++ t :: rest) (ht : t.bracket? = none) (hk : k ≤ rest.length)
    (hr : ∀ y < k, ∃ u, rest[y]? = some u ∧ Readable u) (hopen : Open (marks pre) opened) :
    toks = (pre ++ t :: rest.take k) ++ rest.drop k ∧ Open (marks (pre ++ t :: rest.take k)) opened := by
  refine ⟨by simp [hts], ?_⟩
  rwa [marks_read ht hk hr]

theorem bracket?_closer (hc : t.kind = .symbol c) (hcl : opener c = some o) : t.bracket? = some c := by
  simp [bracket?_symbol hc, hcl]

theorem marks_at (hts : toks = pre ++ t :: rest) (hb : t.bracket? = some c) :
    marks toks = marks pre ++ (c, t.span.start) :: marks rest := by
  rw [hts, marks_append, ← List.singleton_append, marks_append, marks_singleton_of_bracket hb]
  rfl

theorem open_bracket {os : List (Char × Position)} (hts : toks = pre ++ t :: rest)
    (hb : t.bracket? = some c) (hopen : Open (marks pre ++ [(c, t.span.start)]) os) :
    toks = (pre ++ [t]) ++ rest ∧ Open (marks (pre ++ [t])) os := by
  refine ⟨by simp [hts], ?_⟩
  rwa [marks_append, marks_singleton_of_bracket hb]

theorem scanFrom_checked {decls : List Declaration} {imports : List Import} (heof : eof.kind = .eof)
    (hts : toks = pre ++ rest) (hopen : Open (marks pre) opened) :
    BracketsChecked eof toks (scanFrom eof rest opened decls imports) := by
  fun_induction scanFrom eof rest opened decls imports generalizing pre
  case case1 =>
    rw [hts, List.append_nil]
    exact Or.inl (.unclosed hopen)
  case case2 =>
    rw [hts, List.append_nil]
    exact hopen
  case case3 t rest c hc hop ih =>
    obtain ⟨c', hp⟩ := isOpener_iff.mp hop
    have hb : t.bracket? = some c := by simp [bracket?_symbol hc, hop]
    obtain ⟨hts', hopen'⟩ := open_bracket hts hb (hopen.push hp)
    exact ih hts' hopen'
  case case4 t rest c hc hop o hcl =>
    refine Or.inl ?_
    rw [marks_at hts (bracket?_closer hc hcl)]
    exact .unmatched hopen (isClosing_of_pair (opener_eq_some.mp hcl))
  case case5 t rest c hc hop top p more hcl ih =>
    obtain ⟨hts', hopen'⟩ := open_bracket hts (bracket?_closer hc hcl) (hopen.pop (opener_eq_some.mp hcl))
    exact ih hts' hopen'
  case case6 t rest c hc hop o hcl top p more hne =>
    have hno : (top, c) ∉ bracketPairs := fun hp =>
      hne (Option.some.inj ((opener_eq_some.mpr hp).symm.trans hcl))
    refine Or.inl ?_
    rw [marks_at hts (bracket?_closer hc hcl)]
    exact .mismatched hopen (isClosing_of_pair (opener_eq_some.mp hcl)) hno
  case case7 t rest c hc hop hcl ih =>
    have hb : t.bracket? = none := by simp [bracket?_symbol hc, hop, hcl]
    obtain ⟨hts', hopen'⟩ := open_skip hts hb hopen
    exact ih hts' hopen'
  case case8 opened _ _ t rest hempty imp k hr hkw ih =>
    obtain ⟨-, hk, hread, -⟩ := readImport_spec heof hr
    obtain ⟨hts', hopen'⟩ := open_read hts (bracket?_of_keyword hkw) hk hread hopen
    exact ih hts' hopen'
  case case9 opened _ _ t rest hempty e hr hkw =>
    obtain rfl : opened = [] := List.isEmpty_iff.mp hempty
    obtain ⟨j, hj⟩ := readImport_error heof hr
    exact Or.inr (misread_topLevel hts (bracket?_of_keyword hkw) hopen hj)
  case case10 opened _ _ t rest kw hkw hempty hni kind hkind d k hr ih =>
    obtain ⟨-, hk, hread, -⟩ := readDeclaration_spec heof hr
    obtain ⟨hts', hopen'⟩ := open_read hts (bracket?_of_keyword hkw) hk hread hopen
    exact ih hts' hopen'
  case case11 opened _ _ t rest kw hkw hempty hni kind hkind e hr =>
    obtain rfl : opened = [] := List.isEmpty_iff.mp hempty
    obtain ⟨j, hj⟩ := readDeclaration_error heof hr
    exact Or.inr (misread_topLevel hts (bracket?_of_keyword hkw) hopen hj)
  case case12 opened _ _ t rest kw hkw _ _ _ ih =>
    obtain ⟨hts', hopen'⟩ := open_skip hts (bracket?_of_keyword hkw) hopen
    exact ih hts' hopen'
  case case13 opened _ _ t rest kw hkw _ ih =>
    obtain ⟨hts', hopen'⟩ := open_skip hts (bracket?_of_keyword hkw) hopen
    exact ih hts' hopen'
  case case14 opened _ _ t rest hns _ ih =>
    have hb : t.bracket? = none := by
      unfold Token.bracket?
      split
      · exact absurd ‹_› (hns _)
      · rfl
    obtain ⟨hts', hopen'⟩ := open_skip hts hb hopen
    exact ih hts' hopen'

theorem expected_kind_ne (t : Token) (what : String) : (expected t what).kind ≠ .syntaxError := by
  unfold expected
  split <;> simp [ParseFault.unexpectedEof, ParseFault.unexpectedToken]

end Scan

namespace Program

open Scan

variable {s : String} {toks : List Token} {eof : Token}

theorem parse_checked (ht : Lexer.tokenize s = .ok (toks ++ [eof])) (heof : eof.kind = .eof) :
    BracketsChecked eof toks (parse s) := by
  have hscan : parse s = scanFrom eof toks [] [] [] := by
    simp [parse, ht, bind, Except.bind, ofTokens]
  rw [hscan]
  exact scanFrom_checked heof (show toks = [] ++ toks from rfl) .nil

theorem checked_append_eof (toks : List Token) (heof : eof.kind = .eof) :
    marks (toks ++ [eof]) = marks toks ∧
      ∀ x ≤ toks.length, tokenAt eof toks x = (toks ++ [eof])[x]?.getD eof ∧
        (TopLevel toks x ↔ TopLevel (toks ++ [eof]) x) := by
  have hb : eof.bracket? = none := by simp [Token.bracket?, heof]
  refine ⟨by rw [marks_append, marks_singleton_of_none hb, List.append_nil], fun x hx => ⟨?_, ?_⟩⟩
  · rcases Nat.lt_or_ge x toks.length with hlt | hge
    · simp [tokenAt, List.getElem?_append_left hlt]
    · obtain rfl : x = toks.length := by omega
      simp [tokenAt]
  · rw [TopLevel, TopLevel, List.take_append_of_le_length hx]

-- Of a text that reads into tokens, the program reads only when the bracket tokens are well nested,
-- and a syntax error is reported only when they are not. When they are not, reading stops at the
-- first bracket fault — a closing bracket with none open (`Unmatched`), a closing bracket that does
-- not close the innermost open one (`Mismatched`, naming that one and where it opened), or else the
-- innermost bracket left open (`Unclosed`) — or at the fault of a reader of an import or a
-- declaration, at a token before which the brackets balance.
theorem parse_bracket_faults {ts : List Token} (ht : Lexer.tokenize s = .ok ts) :
    (∀ p, parse s = .ok p → Balanced (brackets ts)) ∧
    (Balanced (brackets ts) → ∀ e, parse s = .error e → e.kind ≠ .syntaxError) ∧
    (¬Balanced (brackets ts) → ∃ e, parse s = .error e ∧
      (BracketFault (marks ts) e ∨
        ∃ x u what, ts[x]? = some u ∧ TopLevel ts x ∧ e = expected u what)) := by
  obtain ⟨toks, eof, rfl, heof, -⟩ := Lexer.tokenize_eof ht
  have hchk := parse_checked ht heof
  obtain ⟨hmarks, hend⟩ := checked_append_eof toks heof
  have hbr : brackets (toks ++ [eof]) = (marks toks).map Prod.fst := by rw [← map_marks, hmarks]
  -- every fault is the first bracket fault or a reader's at the top level
  have herr : ∀ e, parse s = .error e → BracketFault (marks (toks ++ [eof])) e ∨
      ∃ x u what, (toks ++ [eof])[x]? = some u ∧ TopLevel (toks ++ [eof]) x ∧ e = expected u what := by
    intro e he
    rw [he] at hchk
    rcases hchk with hf | ⟨x, hx, htop, what, rfl⟩
    · exact .inl (hmarks ▸ hf)
    · obtain ⟨hat, hlevel⟩ := hend x hx
      have hsome : (toks ++ [eof])[x]? = some (tokenAt eof toks x) := by
        rw [hat, List.getElem?_eq_getElem (by simp; omega)]
        simp
      exact .inr ⟨x, _, what, hsome, hlevel.mp htop, rfl⟩
  have hok : ∀ p, parse s = .ok p → Balanced (brackets (toks ++ [eof])) := by
    intro p hp
    rw [hp] at hchk
    rw [hbr]
    exact Open.balanced hchk
  refine ⟨hok, fun hb e he => ?_, fun hnb => ?_⟩
  · rcases herr e he with hf | ⟨x, u, what, -, -, rfl⟩
    · exact absurd (hmarks ▸ hbr ▸ hb) hf.not_balanced
    · exact expected_kind_ne u what
  · cases hp : parse s with
    | ok p => exact absurd (hok p hp) hnb
    | error e => exact ⟨e, rfl, herr e hp⟩

def bracketedSource : String := "contract C \x7b fun f() \x7b let xs = [1, 2] \x7d \x7d"

theorem parse_bracket_faults_bracketedSource :
    ∃ ts, Lexer.tokenize bracketedSource = .ok ts ∧ Balanced (brackets ts) := by
  obtain ⟨ts, ht⟩ : ∃ ts, Lexer.tokenize bracketedSource = .ok ts := by
    have h : (Lexer.tokenize bracketedSource).toOption.isSome = true := by decide +kernel
    revert h
    cases Lexer.tokenize bracketedSource <;> simp [Except.toOption]
  obtain ⟨p, hp⟩ : ∃ p, parse bracketedSource = .ok p := by
    have h : (parse bracketedSource).toOption.isSome = true := by decide +kernel
    revert h
    cases parse bracketedSource <;> simp [Except.toOption]
  exact ⟨ts, ht, (parse_bracket_faults ht).1 p hp⟩

def closerForName : String := "contract )"

-- The brackets are not well nested and no token before the ")" is misread, yet the fault is not
-- a syntax error: the reader of the declaration finds the ")" where it expects the name.
theorem parse_closerForName : ∃ ts, Lexer.tokenize closerForName = .ok ts ∧
    ¬Balanced (brackets ts) ∧
    parse closerForName = .error (ParseFault.unexpectedToken ⟨1, 10, 9⟩ ")" "declaration name") := by
  have h : (match Lexer.tokenize closerForName with
      | .ok ts => !decide (Balanced (brackets ts))
      | .error _ => false) = true := by decide +kernel
  cases ht : Lexer.tokenize closerForName with
  | error e =>
    rw [ht] at h
    cases h
  | ok ts =>
    rw [ht] at h
    exact ⟨ts, rfl, by simpa using h, by decide +kernel⟩

end Program

end ContractDeploy
