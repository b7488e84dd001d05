import ContractDeploy.Source.Lexer
import ContractDeploy.Proofs.Source.Layout

namespace ContractDeploy

namespace Cursor

-- Reading `m` from `c` leaves `c'`.
structure Passes (c : Cursor) (m : List Char) (c' : Cursor) : Prop where
  rest : c.rest = m ++ c'.rest
  pos : c'.pos = c.pos.advanceAll m

variable {c c' c'' : Cursor}

theorem Passes.refl (c : Cursor) : c.Passes [] c := ⟨rfl, rfl⟩

theorem Passes.trans (h₁ : c.Passes m c') (h₂ : c'.Passes m' c'') : c.Passes (m ++ m') c'' :=
  ⟨by rw [h₁.rest, h₂.rest, List.append_assoc], by rw [h₂.pos, h₁.pos, Position.advanceAll_append]⟩

theorem passes_skip (c : Cursor) (n : Nat) : c.Passes (c.rest.take n) (c.skip n) :=
  ⟨(List.take_append_drop n c.rest).symm, rfl⟩

theorem passes_skip_of_rest (h : c.rest = m ++ r) (hn : m.length = n) : c.Passes m (c.skip n) := by
  subst hn
  have := passes_skip c m.length
  rwa [h, List.take_left] at this

theorem passes_ofSource (s : String) : ∃ m, (⟨.start, s.toList⟩ : Cursor).Passes m (ofSource s) := by
  unfold ofSource
  split
  case h_1 ch rest hs =>
    split
    case isTrue => exact ⟨[ch], ⟨hs, rfl⟩⟩
    case isFalse => exact ⟨[], ⟨hs, rfl⟩⟩
  case h_2 hs => exact ⟨[], ⟨hs, rfl⟩⟩

end Cursor

namespace Lexer

open Cursor

variable {c c' : Cursor}

-- The text of a string literal: its quotes and what stands between them.
def Quoted (lex : List Char) : Prop := ∃ body, lex = '"' :: (body ++ ['"'])

-- What the text of a token is known to be: a quoted literal for a string.
def Spells (t : Token) (lex : List Char) : Prop := ∀ v, t.kind = .string v → Quoted lex

theorem skipTrivia_passes (h : skipTrivia c = .ok c') : ∃ m, c.Passes m c' := by
  fun_induction skipTrivia c
  case case1 =>
    cases h
    exact ⟨[], .refl _⟩
  case case2 | case3 | case5 =>
    rename_i ih
    obtain ⟨m, hm⟩ := ih h
    exact ⟨_, (passes_skip _ _).trans hm⟩
  case case4 => cases h
  case case6 =>
    cases h
    exact ⟨[], .refl _⟩

theorem stringBody_passes (h : stringBody start c acc = .ok (v, c')) :
    ∃ body, c.Passes (body ++ ['"']) c' := by
  fun_induction stringBody start c acc
  case case2 _ hrest =>
    simp only [Except.ok.injEq, Prod.mk.injEq] at h
    obtain ⟨-, rfl⟩ := h
    exact ⟨[], passes_skip_of_rest (hrest.trans (List.singleton_append.symm)) rfl⟩
  case case5 | case6 | case9 =>
    rename_i ih
    have ⟨body, hb⟩ := ih h
    exact ⟨_ ++ body, by simpa using (passes_skip _ _).trans hb⟩
  all_goals cases h

theorem take_passes (h : take c k n = (t, c')) :
    c.Passes (c.rest.take n) c' ∧ t.span = ⟨c.pos, c'.pos⟩ ∧ t.kind = k := by
  simp only [take, Prod.mk.injEq] at h
  obtain ⟨rfl, rfl⟩ := h
  exact ⟨passes_skip c n, rfl, rfl⟩

theorem nextToken_passes (h : nextToken c = .ok (t, c')) :
    ∃ c₁ gap lex, skipTrivia c = .ok c₁ ∧ c.Passes gap c₁ ∧ c₁.Passes lex c' ∧ t.span = ⟨c₁.pos, c'.pos⟩ ∧ Spells t lex := by
  cases hs : skipTrivia c with
  | error e => simp [nextToken, hs, bind, Except.bind] at h
  | ok c₁ =>
    have ⟨gap, hgap⟩ := skipTrivia_passes hs
    refine ⟨c₁, gap, ?_⟩
    suffices ∃ lex, c.Passes gap c₁ ∧ c₁.Passes lex c' ∧ t.span = ⟨c₁.pos, c'.pos⟩ ∧ Spells t lex by
      obtain ⟨lex, hl⟩ := this
      exact ⟨lex, rfl, hl⟩
    simp only [nextToken, hs, bind, Except.bind] at h
    split at h
    case h_1 =>
      simp only [pure, Except.pure, Except.ok.injEq, Prod.mk.injEq] at h
      obtain ⟨rfl, rfl⟩ := h
      exact ⟨[], hgap, .refl _, rfl, fun v hv => by cases hv⟩
    case h_2 ch rest hrest =>
      -- each kind of token but a string takes a counted number of characters
      have hother : ∀ {k n}, (∀ v, k ≠ TokenKind.string v) →
          pure (take c₁ k n) = (Except.ok (t, c') : Except ParseFault (Token × Cursor)) →
          ∃ lex, c.Passes gap c₁ ∧ c₁.Passes lex c' ∧ t.span = ⟨c₁.pos, c'.pos⟩ ∧ Spells t lex := by
        intro k n hk ht
        simp only [pure, Except.pure, Except.ok.injEq] at ht
        have ⟨hp, hsp, hkind⟩ := take_passes ht
        exact ⟨_, hgap, hp, hsp, fun v hv => absurd (hkind ▸ hv) (hk v)⟩
      split at h
      case isTrue hq =>
        cases hb : stringBody c₁.pos (c₁.skip 1) [] with
        | error e => simp [hb] at h
        | ok vc =>
          obtain ⟨value, c₂⟩ := vc
          simp only [hb, pure, Except.pure, Except.ok.injEq, Prod.mk.injEq] at h
          obtain ⟨rfl, rfl⟩ := h
          have ⟨body, hbody⟩ := stringBody_passes hb
          have hopen : c₁.Passes ['"'] (c₁.skip 1) :=
            passes_skip_of_rest (by rw [hrest, hq]; rfl) rfl
          exact ⟨'"' :: (body ++ ['"']), hgap, hopen.trans hbody, rfl, fun _ _ => ⟨body, rfl⟩⟩
      case isFalse =>
        split at h
        case isTrue => exact hother (fun v hv => by cases hv) h
        case isFalse =>
          split at h
          case isTrue =>
            refine hother (fun v hv => ?_) h
            cases hw : Keyword.ofWord? (c₁.peekText ((ch :: rest).takeWhile isWordChar).length)
            all_goals simp [hw] at hv
          case isFalse =>
            split at h
            case isTrue => exact hother (fun v hv => by cases hv) h
            case isFalse => cases h

theorem numberLength_pos {ch : Char} {rest : List Char} (hd : ch.isDigit = true) :
    0 < numberLength (ch :: rest) := by
  -- the whole part holds the first digit at least, and a fraction only adds to it
  have hwhole : 0 < ((ch :: rest).takeWhile fun c => c.isDigit || c == '_').length := by
    simp [hd]
  have hfrac : ∀ w n : Nat, 0 < w → 0 < w + 1 + n := fun w n _ => by omega
  unfold numberLength
  dsimp only
  generalize ((ch :: rest).takeWhile fun c => c.isDigit || c == '_').length = w at hwhole ⊢
  split
  · split
    · omega
    · split
      · split
        · exact hfrac _ _ hwhole
        · exact hwhole
      · exact hwhole
  · split
    · split
      · exact hfrac _ _ hwhole
      · exact hwhole
    · exact hwhole

-- What reading one token can do: after the blanks and comments, reach the end of the text, read
-- a string literal to its closing quote, or take a number, a word or a punctuation character of
-- at least one character.
theorem nextToken_eq_ok (h : nextToken c = .ok (t, c')) :
    ∃ c₁, skipTrivia c = .ok c₁ ∧
      (c₁.rest = [] ∧ t = ⟨.eof, "", ⟨c₁.pos, c₁.pos⟩⟩ ∧ c' = c₁ ∨
       ∃ ch rest, c₁.rest = ch :: rest ∧
        (ch = '"' ∧ (∃ v, stringBody c₁.pos (c₁.skip 1) [] = .ok (v, c') ∧
            t = ⟨.string v, c₁.peekText (c₁.rest.length - c'.rest.length), ⟨c₁.pos, c'.pos⟩⟩) ∨
         ch ≠ '"' ∧ ∃ k n, 0 < n ∧ take c₁ k n = (t, c') ∧
          (ch.isDigit ∧ n = numberLength (ch :: rest) ∧ k = .number (c₁.peekText n) ∨
           ¬ch.isDigit ∧ isWordStart ch ∧ n = ((ch :: rest).takeWhile isWordChar).length ∧
            k = (Keyword.ofWord? (c₁.peekText n)).elim (.identifier (c₁.peekText n)) .keyword ∨
           ¬ch.isDigit ∧ ¬isWordStart ch ∧ isPunctuation ch ∧ n = 1 ∧ k = .symbol ch))) := by
  cases hs : skipTrivia c with
  | error e => simp [nextToken, hs, bind, Except.bind] at h
  | ok c₁ =>
    refine ⟨c₁, rfl, ?_⟩
    simp only [nextToken, hs, bind, Except.bind] at h
    split at h
    case h_1 hrest =>
      simp only [pure, Except.pure, Except.ok.injEq, Prod.mk.injEq] at h
      exact .inl ⟨hrest, h.1.symm, h.2.symm⟩
    case h_2 ch rest hrest =>
      refine .inr ⟨ch, rest, hrest, ?_⟩
      split at h
      case isTrue hq =>
        cases hb : stringBody c₁.pos (c₁.skip 1) [] with
        | error e => simp [hb] at h
        | ok vc =>
          simp only [hb, pure, Except.pure, Except.ok.injEq] at h
          obtain ⟨rfl, rfl⟩ := Prod.mk.inj h
          exact .inl ⟨hq, vc.1, rfl, rfl⟩
      case isFalse hq =>
        refine .inr ⟨hq, ?_⟩
        simp only [pure, Except.pure] at h
        split at h
        case isTrue hd =>
          exact ⟨_, _, numberLength_pos hd, (Except.ok.inj h), .inl ⟨hd, rfl, rfl⟩⟩
        case isFalse hd =>
          split at h
          case isTrue hw =>
            have hpos : 0 < ((ch :: rest).takeWhile isWordChar).length := by
              have : isWordChar ch = true := by
                simp only [isWordStart, Bool.or_eq_true, beq_iff_eq] at hw
                simp only [isWordChar, Bool.or_eq_true, beq_iff_eq]
                tauto
              simp [this]
            exact ⟨_, _, hpos, Except.ok.inj h, .inr (.inl ⟨hd, hw, rfl, rfl⟩)⟩
          case isFalse hw =>
            split at h
            case isTrue hp =>
              exact ⟨_, _, Nat.one_pos, Except.ok.inj h, .inr (.inr ⟨hd, hw, hp, rfl, rfl⟩)⟩
            case isFalse => cases h

theorem nextToken_advances (h : nextToken c = .ok (t, c')) (ht : t.kind ≠ .eof) :
    c'.rest.length < c.rest.length := by
  obtain ⟨c₁, hs, he | ⟨ch, rest, hrest, hstr | ⟨-, k, n, hn, htake, -⟩⟩⟩ := nextToken_eq_ok h
  · exact absurd (by rw [he.2.1]) ht
  all_goals have ⟨m, hm⟩ := skipTrivia_passes hs
  all_goals have hle : c₁.rest.length ≤ c.rest.length := by rw [hm.rest]; simp
  all_goals have hlen : c₁.rest.length = rest.length + 1 := by rw [hrest]; rfl
  · obtain ⟨-, v, hb, -⟩ := hstr
    obtain ⟨body, hbody⟩ := stringBody_passes hb
    have h₁ : (c₁.skip 1).rest.length = body.length + 1 + c'.rest.length := by
      rw [hbody.rest]
      simp
      omega
    have h₂ := Cursor.length_rest_skip c₁ 1
    omega
  · have h₁ := congrArg List.length (take_passes htake).1.rest
    simp only [List.length_append, List.length_take] at h₁
    omega

theorem tokensFrom_layout (h : tokensFrom c acc = .ok ts) :
    ∃ new, ts = acc.reverse ++ new ∧ Layout Token.span Spells c.pos c.rest new := by
  fun_induction tokensFrom c acc
  rename_i c acc ih
  cases hn : nextToken c with
  | error e => simp [hn, bind, Except.bind] at h
  | ok tc =>
    obtain ⟨t, c'⟩ := tc
    obtain ⟨c₁, gap, lex, -, hgap, hlex, hspan, hsp⟩ := nextToken_passes hn
    have hstep : ∀ new, Layout Token.span Spells c'.pos c'.rest new →
        Layout Token.span Spells c.pos c.rest (t :: new) := by
      intro new hl
      have hrest : c.rest = gap ++ lex ++ c'.rest := by
        rw [hgap.rest, hlex.rest, List.append_assoc]
      exact .cons hrest (by rw [hspan, hgap.pos]) (by rw [hspan, hlex.pos]) hsp (by rw [hspan]; exact hl)
    simp only [hn, bind, Except.bind] at h
    split at h
    case isTrue =>
      simp only [pure, Except.pure, Except.ok.injEq] at h
      exact ⟨[t], by simp [← h], hstep [] .nil⟩
    case isFalse =>
      split at h
      case isTrue hlt =>
        have ⟨new, hts, hl⟩ := ih t c' hlt h
        exact ⟨t :: new, by simp [hts], hstep new hl⟩
      case isFalse =>
        simp only [pure, Except.pure, Except.ok.injEq] at h
        exact ⟨[t], by simp [← h], hstep [] .nil⟩

theorem tokenize_layout (h : tokenize s = .ok ts) : Layout Token.span Spells .start s.toList ts := by
  have ⟨new, hts, hl⟩ := tokensFrom_layout h
  have ⟨m, hm⟩ := passes_ofSource s
  simp only [List.reverse_nil, List.nil_append] at hts
  subst hts
  have hrest : s.toList = m ++ (Cursor.ofSource s).rest := hm.rest
  rw [hrest]
  exact Layout.prepend (hm.pos ▸ hl)

theorem tokensFrom_eof (h : tokensFrom c acc = .ok ts) :
    ∃ new eof, ts = acc.reverse ++ new ++ [eof] ∧ eof.kind = .eof ∧ ∀ t ∈ new, t.kind ≠ .eof := by
  fun_induction tokensFrom c acc
  rename_i c acc ih
  cases hn : nextToken c with
  | error e => simp [hn, bind, Except.bind] at h
  | ok tc =>
    obtain ⟨t, c'⟩ := tc
    simp only [hn, bind, Except.bind] at h
    split at h
    case isTrue he =>
      simp only [pure, Except.pure, Except.ok.injEq] at h
      exact ⟨[], t, by simp [← h], by simpa [Token.isEof] using he, by simp⟩
    case isFalse he =>
      have hne : t.kind ≠ .eof := by simpa [Token.isEof] using he
      split at h
      case isTrue hlt =>
        have ⟨new, eof, hts, heof, hnew⟩ := ih t c' hlt h
        refine ⟨t :: new, eof, by simp [hts], heof, ?_⟩
        intro u hu
        rcases List.mem_cons.mp hu with rfl | hu
        · exact hne
        · exact hnew u hu
      case isFalse hlt => exact absurd (nextToken_advances hn hne) hlt

theorem tokenize_eof (h : tokenize s = .ok ts) :
    ∃ toks eof, ts = toks ++ [eof] ∧ eof.kind = .eof ∧ ∀ t ∈ toks, t.kind ≠ .eof := by
  have ⟨new, eof, hts, heof, hnew⟩ := tokensFrom_eof h
  exact ⟨new, eof, by simpa using hts, heof, hnew⟩

end Lexer

end ContractDeploy
