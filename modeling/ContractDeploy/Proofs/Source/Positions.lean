import ContractDeploy.Proofs.Source.Coverage
import ContractDeploy.Proofs.Source.TopLevel

namespace ContractDeploy

namespace Utf8

theorem isBoundary_byteCount (m r : List Char) : isBoundary (byteCount m) (m ++ r) = true := by
  induction m with
  | nil => cases r <;> rfl
  | cons c m ih =>
    have hpos := Char.utf8Size_pos c
    obtain ⟨k, hk⟩ : ∃ k, c.utf8Size + byteCount m = k + 1 := ⟨_, (Nat.succ_pred_eq_of_pos (by omega)).symm⟩
    rw [byteCount_cons, hk, List.cons_append, isBoundary]
    · rw [show k + 1 - c.utf8Size = byteCount m by omega, ih]
      simp only [Bool.and_true, decide_eq_true_eq]
      omega
    · exact Nat.succ_ne_zero k

end Utf8

namespace Position

@[simp] theorem line_advance (p : Position) (c : Char) :
    (p.advance c).line = if c = '\n' then p.line + 1 else p.line := by
  unfold advance
  split <;> rfl

@[simp] theorem column_advance (p : Position) (c : Char) :
    (p.advance c).column = if c = '\n' then 1 else p.column + 1 := by
  unfold advance
  split <;> rfl

theorem line_advanceAll (p : Position) (m : List Char) :
    (p.advanceAll m).line = p.line + m.count '\n' := by
  induction m generalizing p with
  | nil => simp
  | cons c m ih =>
    rw [advanceAll_cons, ih, line_advance, List.count_cons]
    by_cases hc : c = '\n' <;> simp [hc]
    omega

-- From the start, the column counts the characters after the last line feed; the text is
-- taken from its end, where a line feed resets the column.
theorem column_start_advanceAll (m : List Char) :
    (start.advanceAll m).column = 1 + (m.reverse.takeWhile (· != '\n')).length := by
  obtain ⟨l, rfl⟩ : ∃ l, m = l.reverse := ⟨m.reverse, by simp⟩
  rw [List.reverse_reverse]
  induction l with
  | nil => rfl
  | cons c l ih =>
    rw [List.reverse_cons, advanceAll_append, advanceAll_cons, advanceAll_nil, column_advance]
    by_cases hc : c = '\n'
    · simp [hc]
    · simp [hc, ih]
      omega

-- `p.Measures cs`: the position `p` is where it says in the text `cs`. Its offset falls on a
-- character boundary, its line is one more than the line feeds before it, and its column one more
-- than the characters after the last of them.
structure Measures (cs : List Char) (p : Position) : Prop where
  boundary : Utf8.isBoundary p.offset cs = true
  line : p.line = 1 + (Utf8.slice cs 0 p.offset).count '\n'
  column : p.column = 1 + ((Utf8.slice cs 0 p.offset).reverse.takeWhile (· != '\n')).length

theorem measures_advanceAll (m r : List Char) : (start.advanceAll m).Measures (m ++ r) := by
  have hoff : (start.advanceAll m).offset = Utf8.byteCount m := by
    simp [offset_advanceAll, start]
  have hslice : Utf8.slice (m ++ r) 0 (start.advanceAll m).offset = m := by
    simpa [hoff] using Utf8.slice_eq [] m r
  refine ⟨by rw [hoff]; exact Utf8.isBoundary_byteCount m r, ?_, ?_⟩
  · rw [hslice, line_advanceAll]
    rfl
  · rw [hslice, column_start_advanceAll]

end Position

namespace Cursor

def Reaches (c : Cursor) (p : Position) : Prop := ∃ m r, c.rest = m ++ r ∧ p = c.pos.advanceAll m

variable {c c' : Cursor} {m : List Char} {p : Position}

theorem Reaches.here (c : Cursor) : c.Reaches c.pos := ⟨[], c.rest, rfl, rfl⟩

theorem Passes.reaches (h : c.Passes m c') (h' : c'.Reaches p) : c.Reaches p := by
  obtain ⟨m', r, hr, rfl⟩ := h'
  exact ⟨m ++ m', r, by rw [h.rest, hr, List.append_assoc], by rw [h.pos, Position.advanceAll_append]⟩

theorem reaches_skip (c : Cursor) (n : Nat) (h : (c.skip n).Reaches p) : c.Reaches p :=
  (passes_skip c n).reaches h

theorem Reaches.measures {cs : List Char} (h : (⟨.start, cs⟩ : Cursor).Reaches p) :
    p.Measures cs := by
  obtain ⟨m, r, hr, rfl⟩ := h
  rw [show cs = m ++ r from hr]
  exact Position.measures_advanceAll m r

end Cursor

theorem Layout.reaches {α : Type} {span : α → Span} {P : α → List Char → Prop} {p : Position}
    {cs : List Char} {xs : List α} (h : Layout span P p cs xs) :
    ∀ x ∈ xs, (⟨p, cs⟩ : Cursor).Reaches (span x).start ∧ (⟨p, cs⟩ : Cursor).Reaches (span x).stop := by
  induction h with
  | nil => simp
  | @cons p cs gap lex rest x xs he hst hsp _ _ ih =>
    -- the gap and the item's text are passed before the items after it
    have hpass : (⟨p, cs⟩ : Cursor).Passes (gap ++ lex) ⟨(span x).stop, rest⟩ :=
      ⟨by simp [he], by rw [hsp, hst, Position.advanceAll_append]⟩
    intro y hy
    rcases List.mem_cons.mp hy with rfl | hy
    · exact ⟨⟨gap, lex ++ rest, by simp [he], hst⟩, hpass.reaches (.here _)⟩
    · obtain ⟨h₁, h₂⟩ := ih y hy
      exact ⟨hpass.reaches h₁, hpass.reaches h₂⟩

namespace Lexer

open Cursor

variable {c : Cursor} {e : ParseFault}

theorem skipTrivia_error (h : skipTrivia c = .error e) : c.Reaches e.position := by
  fun_induction skipTrivia c
  case case2 | case3 | case5 =>
    rename_i ih
    exact reaches_skip _ _ (ih h)
  case case4 =>
    cases h
    exact .here _
  all_goals cases h

theorem stringBody_error (h : stringBody start c acc = .error e) :
    e.position = start ∨ c.Reaches e.position := by
  fun_induction stringBody start c acc
  case case5 | case6 | case9 =>
    rename_i ih
    exact (ih h).imp_right (reaches_skip _ _)
  case case7 | case8 =>
    rename_i hrest
    injection h with h
    rw [← h]
    exact .inr ⟨['\\'], _, hrest, rfl⟩
  case case2 => cases h
  all_goals
    injection h with h
    rw [← h]
    exact .inl rfl

theorem nextToken_error (h : nextToken c = .error e) : c.Reaches e.position := by
  cases hs : skipTrivia c with
  | error e' =>
    simp only [nextToken, hs, bind, Except.bind, Except.error.injEq] at h
    exact h ▸ skipTrivia_error hs
  | ok c₁ =>
    obtain ⟨gap, hgap⟩ := skipTrivia_passes hs
    refine hgap.reaches ?_
    simp only [nextToken, hs, bind, Except.bind] at h
    split at h
    case h_1 => cases h
    case h_2 ch rest hrest =>
      split at h
      case isTrue =>
        cases hb : stringBody c₁.pos (c₁.skip 1) [] with
        | error e' =>
          simp only [hb, Except.error.injEq] at h
          subst h
          rcases stringBody_error hb with he | he
          · rw [he]
            exact .here _
          · exact reaches_skip _ _ he
        | ok vc => simp [hb, pure, Except.pure] at h
      case isFalse =>
        split at h
        case isTrue => cases h
        split at h
        case isTrue => cases h
        split at h
        case isTrue => cases h
        cases h
        exact .here _

theorem tokensFrom_error (h : tokensFrom c acc = .error e) : c.Reaches e.position := by
  fun_induction tokensFrom c acc
  rename_i c acc ih
  cases hn : nextToken c with
  | error e' =>
    simp only [hn, bind, Except.bind, Except.error.injEq] at h
    exact h ▸ nextToken_error hn
  | ok tc =>
    obtain ⟨t, c'⟩ := tc
    obtain ⟨c₁, gap, lex, -, hgap, hlex, -, -⟩ := nextToken_passes hn
    simp only [hn, bind, Except.bind] at h
    split at h
    case isTrue => cases h
    split at h
    case isTrue hlt => exact (hgap.trans hlex).reaches (ih t c' hlt h)
    case isFalse => cases h

theorem tokenize_measures {s : String} :
    (∀ ts, tokenize s = .ok ts → ∀ t ∈ ts,
      t.span.start.Measures s.toList ∧ t.span.stop.Measures s.toList) ∧
    (∀ e, tokenize s = .error e → e.position.Measures s.toList) := by
  refine ⟨fun ts h t ht => ?_, fun e h => ?_⟩
  · obtain ⟨h₁, h₂⟩ := (tokenize_layout h).reaches t ht
    exact ⟨h₁.measures, h₂.measures⟩
  · obtain ⟨m, hm⟩ := passes_ofSource s
    exact (hm.reaches (tokensFrom_error h)).measures

end Lexer

namespace Program

-- Every position that reading a program reports satisfies `Q`: both ends of the spans of the
-- declarations and imports it finds, or the position of the fault that stops it.
def Reported (Q : Position → Prop) : Except ParseFault Program → Prop
  | .ok p => (∀ d ∈ p.declarations, Q d.span.start ∧ Q d.span.stop) ∧
      ∀ i ∈ p.imports, Q i.span.start ∧ Q i.span.stop
  | .error e => Q e.position

end Program

namespace Scan

variable {eof t : Token} {ts : List Token} {e : ParseFault} {j : Nat}

theorem tokenAt_mem (eof : Token) (ts : List Token) (j : Nat) : tokenAt eof ts j ∈ eof :: ts := by
  unfold tokenAt
  cases h : ts[j]? with
  | none => exact List.mem_cons_self
  | some u => exact List.mem_cons_of_mem _ (List.mem_of_getElem? h)

@[simp] theorem expected_position (t : Token) (what : String) :
    (expected t what).position = t.span.start := by
  unfold expected
  split <;> rfl

theorem locationOf_error (h : locationOf t = .error e) : e = expected t "import location" := by
  unfold locationOf at h
  split at h
  case h_3 _ he =>
    cases h
    rw [expected, if_pos (by simpa [Token.isEof] using he)]
  case h_4 _ _ _ hne =>
    split at h
    case isTrue => cases h
    case isFalse =>
      cases h
      rw [expected, if_neg (by simpa [Token.isEof] using hne)]
  all_goals cases h

-- `Misread eof ts e j`: `e` is the fault of finding token `j` of `ts` (the end `eof` past them)
-- where something else is expected, and every token before it is one a reader takes.
structure Misread (eof : Token) (ts : List Token) (e : ParseFault) (j : Nat) : Prop where
  fault : ∃ what, e = expected (tokenAt eof ts j) what
  readable : ∀ y < j, ∃ u, ts[y]? = some u ∧ Readable u

theorem Misread.cons (h : Misread eof ts e j) (ht : Readable t) : Misread eof (t :: ts) e (j + 1) := by
  refine ⟨h.fault, fun y hy => ?_⟩
  match y with
  | 0 => exact ⟨t, rfl, ht⟩
  | y + 1 => exact h.readable y (by omega)

theorem moreNames_error (h : moreNames eof ts = .error e) : ∃ j, Misread eof ts e j := by
  fun_induction moreNames eof ts
  case case1 comma hc n rest' name hn ih =>
    cases hm : moreNames eof rest' with
    | error e' =>
      simp only [hm, Except.map, Except.error.injEq] at h
      subst h
      obtain ⟨j, hj⟩ := ih hm
      exact ⟨j + 1 + 1, (hj.cons (readable_of_nameOf hn)).cons (readable_comma hc)⟩
    | ok r => simp [hm, Except.map] at h
  case case2 comma hc n rest' hn =>
    cases h
    refine ⟨1, ⟨_, rfl⟩, fun y hy => ?_⟩
    obtain rfl : y = 0 := by omega
    exact ⟨comma, rfl, readable_comma hc⟩
  case case3 comma hc =>
    cases h
    refine ⟨1, ⟨_, rfl⟩, fun y hy => ?_⟩
    obtain rfl : y = 0 := by omega
    exact ⟨comma, rfl, readable_comma hc⟩
  all_goals cases h

theorem Misread.of_tail (heof : eof.kind = .eof) (hne : (tokenAt eof ts 0).kind ≠ .eof)
    (hr : Readable (tokenAt eof ts 0)) (h : Misread eof ts.tail e j) : Misread eof ts e (j + 1) := by
  cases ts with
  | nil => exact absurd heof hne
  | cons u ts => exact h.cons hr

theorem readable_snoc (hr : ∀ y < j, ∃ u, ts[y]? = some u ∧ Readable u)
    (hj : ∃ u, ts[j]? = some u ∧ Readable u) : ∀ y < j + 1, ∃ u, ts[y]? = some u ∧ Readable u := by
  intro y hy
  rcases Nat.lt_succ_iff_lt_or_eq.mp hy with hy | rfl
  · exact hr y hy
  · exact hj

theorem readable_names {name : String} {more : List String} {k : Nat} (heof : eof.kind = .eof)
    (hn : nameOf? (tokenAt eof ts 0) = some name) (hm : moreNames eof ts.tail = .ok (more, k)) :
    ∀ y < k + 1, ∃ u, ts[y]? = some u ∧ Readable u := by
  have hne : (tokenAt eof ts 0).kind ≠ .eof := fun he => by simp [nameOf?, he] at hn
  intro y hy
  cases y with
  | zero => exact ⟨_, getElem?_of_tokenAt heof hne, readable_of_nameOf hn⟩
  | succ y =>
    obtain ⟨u, hu, hru⟩ := (moreNames_spec hm).2 y (by omega)
    exact ⟨u, by rwa [List.getElem?_tail] at hu, hru⟩

theorem readImport_error (heof : eof.kind = .eof) (h : readImport eof ts = .error e) :
    ∃ j, Misread eof ts e j := by
  unfold readImport at h
  dsimp only at h
  split at h
  case h_1 => cases h
  case h_2 kind hk =>
    split at h
    case isTrue => cases h
    case isFalse =>
      split at h
      case h_2 =>
        cases h
        exact ⟨0, ⟨_, rfl⟩, fun y hy => absurd hy (Nat.not_lt_zero y)⟩
      case h_1 name hn =>
        have hne : (tokenAt eof ts 0).kind ≠ .eof := fun he => by simp [nameOf?, he] at hn
        cases hm : moreNames eof ts.tail with
        | error e' =>
          simp only [hm, bind, Except.bind, Except.error.injEq] at h
          subst h
          obtain ⟨j, hj⟩ := moreNames_error hm
          exact ⟨j + 1, hj.of_tail heof hne (readable_of_nameOf hn)⟩
        | ok mk =>
          obtain ⟨more, k⟩ := mk
          have hnames := readable_names heof hn hm
          simp only [hm, bind, Except.bind] at h
          split at h
          case isTrue hfrom =>
            cases hl : locationOf (tokenAt eof ts (k + 2)) with
            | error e' =>
              simp only [hl, Except.error.injEq] at h
              subst h
              have hfk : (tokenAt eof ts (k + 1)).kind = .keyword .from := by
                simpa [Token.isKeyword] using hfrom
              refine ⟨k + 2, ⟨_, locationOf_error hl⟩, readable_snoc hnames ?_⟩
              exact ⟨_, getElem?_of_tokenAt heof (by simp [hfk]),
                readable_of_keyword hfk (by decide) (by decide)⟩
            | ok loc => simp [hl, pure, Except.pure] at h
          case isFalse =>
            split at h
            case isTrue => cases h
            case isFalse =>
              cases h
              exact ⟨k + 1, ⟨_, rfl⟩, hnames⟩

theorem readDeclaration_error {kw : Token} {kind : CompositeKind} (heof : eof.kind = .eof)
    (h : readDeclaration eof kw kind ts = .error e) : ∃ j, Misread eof ts e j := by
  unfold readDeclaration at h
  dsimp only at h
  cases hn : nameOf? (tokenAt eof ts (if (tokenAt eof ts 0).isKeyword .interface then 1 else 0)) with
  | some name => simp [hn, pure, Except.pure] at h
  | none =>
    simp only [hn] at h
    cases h
    refine ⟨_, ⟨_, rfl⟩, fun y hy => ?_⟩
    by_cases hi : (tokenAt eof ts 0).isKeyword .interface
    · -- only `interface` stands before the name
      have hik : (tokenAt eof ts 0).kind = .keyword .interface := by
        simpa [Token.isKeyword] using hi
      rw [if_pos hi] at hy
      obtain rfl : y = 0 := by omega
      exact ⟨_, getElem?_of_tokenAt heof (by simp [hik]), readable_of_keyword hik (by decide) (by decide)⟩
    · rw [if_neg hi] at hy
      omega

theorem Misread.reported {Q : Position → Prop} (h : Misread eof ts e j)
    (hts : ∀ u ∈ eof :: ts, Q u.span.start ∧ Q u.span.stop) : Q e.position := by
  obtain ⟨what, rfl⟩ := h.fault
  rw [expected_position]
  exact (hts _ (tokenAt_mem eof ts j)).1

theorem forall_cons_of_subset {P : Token → Prop} {l rest : List Token} (h : ∀ u ∈ eof :: t :: rest, P u)
    (hl : l ⊆ rest) : ∀ u ∈ eof :: l, P u :=
  fun u hu => h u (List.cons_subset_cons _ (List.Subset.trans hl (List.subset_cons_self _ _)) hu)

-- The scan reports the ends of the tokens' spans and the positions of the brackets it keeps
-- open; the imports and declarations it finds are spanned by tokens.
theorem scanFrom_reported {opened : List (Char × Position)} {decls : List Declaration}
    {imports : List Import} (Q : Position → Prop) (heof : eof.kind = .eof)
    (hts : ∀ u ∈ eof :: ts, Q u.span.start ∧ Q u.span.stop) (hopen : ∀ o ∈ opened, Q o.2)
    (hdecls : ∀ d ∈ decls, Q d.span.start ∧ Q d.span.stop)
    (himports : ∀ i ∈ imports, Q i.span.start ∧ Q i.span.stop) :
    Program.Reported Q (scanFrom eof ts opened decls imports) := by
  fun_induction scanFrom eof ts opened decls imports
  case case1 => exact hopen _ List.mem_cons_self
  case case2 =>
    exact ⟨fun d hd => hdecls d (List.mem_reverse.mp hd), fun i hi => himports i (List.mem_reverse.mp hi)⟩
  case case3 t rest c _ _ ih =>
    refine ih (forall_cons_of_subset hts (List.Subset.refl _)) ?_ hdecls himports
    intro o ho
    rcases List.mem_cons.mp ho with rfl | ho
    · exact (hts t (by simp)).1
    · exact hopen o ho
  case case4 | case6 =>
    exact (hts _ (List.mem_cons_of_mem _ List.mem_cons_self)).1
  case case5 ih =>
    exact ih (forall_cons_of_subset hts (List.Subset.refl _))
      (fun o ho => hopen o (List.mem_cons_of_mem _ ho)) hdecls himports
  case case8 t rest _ imp k hr _ ih =>
    obtain ⟨u, hu, hspan, -⟩ := (readImport_spec heof hr).2.2.2
    refine ih (forall_cons_of_subset hts (List.drop_subset _ _)) hopen hdecls fun i hi => ?_
    rcases List.mem_cons.mp hi with rfl | hi
    · rw [hspan]
      exact hts u (by simp [List.mem_of_getElem? hu])
    · exact himports i hi
  case case9 t rest _ e hr _ =>
    obtain ⟨j, hj⟩ := readImport_error heof hr
    exact hj.reported (forall_cons_of_subset hts (List.Subset.refl _))
  case case10 t rest _ _ _ _ _ _ d k hr ih =>
    obtain ⟨u, hu, hspan⟩ := (readDeclaration_spec heof hr).2.2.2.2.2
    refine ih (forall_cons_of_subset hts (List.drop_subset _ _)) hopen (fun d' hd' => ?_) himports
    rcases List.mem_cons.mp hd' with rfl | hd'
    · rw [hspan]
      exact ⟨(hts t (by simp)).1, (hts u (by simp [List.mem_of_getElem? hu])).2⟩
    · exact hdecls d' hd'
  case case11 t rest _ _ _ _ _ _ e hr =>
    obtain ⟨j, hj⟩ := readDeclaration_error heof hr
    exact hj.reported (forall_cons_of_subset hts (List.Subset.refl _))
  all_goals
    rename_i ih
    exact ih (forall_cons_of_subset hts (List.Subset.refl _)) hopen hdecls himports

end Scan

namespace Program

-- Every position that reading a text reports measures the text: both ends of every token's span,
-- the position of a fault in its tokens, both ends of the span of every declaration and of every
-- import of the program read from it, and the position of a fault in the program.
theorem reports_measured_positions (s : String) :
    (∀ ts, Lexer.tokenize s = .ok ts → ∀ t ∈ ts,
      t.span.start.Measures s.toList ∧ t.span.stop.Measures s.toList) ∧
    (∀ e, Lexer.tokenize s = .error e → e.position.Measures s.toList) ∧
    (∀ p, parse s = .ok p →
      (∀ d ∈ p.declarations, d.span.start.Measures s.toList ∧ d.span.stop.Measures s.toList) ∧
      ∀ i ∈ p.imports, i.span.start.Measures s.toList ∧ i.span.stop.Measures s.toList) ∧
    (∀ e, parse s = .error e → e.position.Measures s.toList) := by
  obtain ⟨htoks, herr⟩ := Lexer.tokenize_measures (s := s)
  have hparse : Reported (Position.Measures s.toList) (parse s) := by
    cases ht : Lexer.tokenize s with
    | error e => simpa [parse, ht, bind, Except.bind, Reported] using herr e ht
    | ok ts =>
      obtain ⟨toks, eof, rfl, heof, -⟩ := Lexer.tokenize_eof ht
      have hscan : parse s = Scan.scanFrom eof toks [] [] [] := by
        simp [parse, ht, bind, Except.bind, ofTokens]
      rw [hscan]
      refine Scan.scanFrom_reported _ heof (fun u hu => htoks _ ht u ?_) (by simp) (by simp) (by simp)
      rcases List.mem_cons.mp hu with rfl | hu
      · simp
      · simp [hu]
  refine ⟨htoks, herr, fun p hp => ?_, fun e he => ?_⟩
  · rw [hp] at hparse
    exact hparse
  · rw [he] at hparse
    exact hparse

end Program

end ContractDeploy
