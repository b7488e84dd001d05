import ContractDeploy.Proofs.Source.Literal

namespace ContractDeploy

namespace Lexer

open Cursor

-- `Comment body`: `body` is the rest of a block comment after its opening `/*`, up to and including
-- the `*/` that closes it. Wherever `/*` starts, it opens a comment nested in this one, and
-- wherever `*/` starts, it closes.
inductive Comment : List Char → Prop
  | close : Comment ['*', '/']
  | nest {a b : List Char} : Comment a → Comment b → Comment ('/' :: '*' :: (a ++ b))
  | char {c : Char} {b : List Char} : ¬(c = '/' ∧ b.head? = some '*') →
      ¬(c = '*' ∧ b.head? = some '/') → Comment b → Comment (c :: b)

-- `Trivia atEnd g`: `g` is blanks and comments. A line comment runs to a line feed, or, where `g`
-- ends the text (`atEnd`), to the end.
inductive Trivia : Bool → List Char → Prop
  | nil {e : Bool} : Trivia e []
  | blank {e : Bool} {c : Char} {g : List Char} : Text.isBlank c = true → Trivia e g →
      Trivia e (c :: g)
  | line {e : Bool} {l g : List Char} : '\n' ∉ l → Trivia e ('\n' :: g) →
      Trivia e ('/' :: '/' :: (l ++ '\n' :: g))
  | lineToEnd {l : List Char} : '\n' ∉ l → Trivia true ('/' :: '/' :: l)
  | block {e : Bool} {body g : List Char} : Comment body → Trivia e g →
      Trivia e ('/' :: '*' :: (body ++ g))

theorem Comment.ne_nil {body : List Char} (h : Comment body) : body ≠ [] := by
  cases h <;> simp

-- What a comment's length counts, with `opened` comments open inside the outermost, is the rest
-- of each of them in turn, innermost first.
theorem commentLength_comments {opened k m : Nat} {cs : List Char}
    (h : commentLength opened k cs = some m) :
    ∃ parts : List (List Char), cs.take (m - k) = parts.flatten ∧ parts.length = opened + 1 ∧
      ∀ p ∈ parts, Comment p := by
  fun_induction commentLength opened k cs
  case case1 => cases h
  case case2 opened k cs ih =>
    -- a nested comment opens: it and the comment around it are the first two parts
    obtain ⟨parts, htake, hlen, hc⟩ := ih h
    obtain ⟨hle, -, -⟩ := commentLength_take h
    obtain ⟨a, bs, rfl⟩ := List.exists_cons_of_length_eq_add_one hlen
    obtain ⟨b, rest, rfl⟩ := List.exists_cons_of_length_eq_add_one (by simpa using hlen)
    refine ⟨('/' :: '*' :: (a ++ b)) :: rest, ?_, by simp_all, ?_⟩
    · rw [show m - k = m - (k + 2) + 1 + 1 by omega, List.take_succ_cons, List.take_succ_cons, htake]
      simp
    · intro p hp
      rcases List.mem_cons.mp hp with rfl | hp
      · exact .nest (hc a (by simp)) (hc b (by simp))
      · exact hc p (by simp [hp])
  case case3 k cs =>
    cases h
    exact ⟨[['*', '/']], by simp, rfl, by simpa using Comment.close⟩
  case case4 opened k cs ho ih =>
    obtain ⟨parts, htake, hlen, hc⟩ := ih h
    obtain ⟨hle, -, -⟩ := commentLength_take h
    refine ⟨['*', '/'] :: parts, ?_, by simp; omega, ?_⟩
    · rw [show m - k = m - (k + 2) + 1 + 1 by omega, List.take_succ_cons, List.take_succ_cons, htake]
      simp
    · intro p hp
      rcases List.mem_cons.mp hp with rfl | hp
      · exact .close
      · exact hc p hp
  case case5 opened k x cs hslash hstar ih =>
    obtain ⟨parts, htake, hlen, hc⟩ := ih h
    obtain ⟨hle, -, -⟩ := commentLength_take h
    obtain ⟨p₀, rest, rfl⟩ := List.exists_cons_of_length_eq_add_one hlen
    have hp₀ : p₀ ≠ [] := (hc p₀ (by simp)).ne_nil
    have hhead : p₀.head? = cs.head? := by
      have hpre : p₀ <+: cs.take (m - (k + 1)) := by
        rw [htake, List.flatten_cons]
        exact List.prefix_append _ _
      obtain ⟨t, ht⟩ := hpre.trans (List.take_prefix _ cs)
      rw [← ht, List.head?_append_of_ne_nil _ hp₀]
    refine ⟨(x :: p₀) :: rest, ?_, by simp_all, ?_⟩
    · rw [show m - k = m - (k + 1) + 1 by omega, List.take_succ_cons, htake]
      simp
    · intro p hp
      rcases List.mem_cons.mp hp with rfl | hp
      · refine .char ?_ ?_ (hc p₀ (by simp))
        · rintro ⟨rfl, hs⟩
          obtain ⟨cs', rfl⟩ := List.head?_eq_some_iff.mp (hhead ▸ hs)
          exact hslash cs' rfl rfl
        · rintro ⟨rfl, hs⟩
          obtain ⟨cs', rfl⟩ := List.head?_eq_some_iff.mp (hhead ▸ hs)
          exact hstar cs' rfl rfl
      · exact hc p (by simp [hp])

theorem commentLength_comment {body : List Char} {n : Nat} (h : commentLength 0 0 body = some n) :
    Comment (body.take n) := by
  obtain ⟨parts, htake, hlen, hc⟩ := commentLength_comments h
  match parts, hlen with
  | [p], _ =>
    have hp : body.take n = p := by simpa using htake
    rw [hp]
    exact hc p (by simp)

-- A line comment with the text `l`, then what follows it, `d`, up to the rest `r` of the text:
-- the end of the text, or the line feed that ends the comment, which trivia passes as a blank.
theorem trivia_lineComment {l d g r : List Char} (hl : '\n' ∉ l) (hd : ∀ y ∈ d.head?, y = '\n')
    (hdg : d = g ++ r) (ht : Trivia r.isEmpty g) (hstop : Stops r) :
    Trivia r.isEmpty ('/' :: '/' :: (l ++ g)) := by
  cases d with
  | nil =>
    obtain ⟨rfl, rfl⟩ := List.append_eq_nil_iff.mp hdg.symm
    simpa using Trivia.lineToEnd hl
  | cons y d =>
    obtain rfl : y = '\n' := hd y rfl
    cases g with
    | nil =>
      -- the line feed is no place for the skipping to stop
      rw [List.nil_append] at hdg
      rw [← hdg] at hstop
      simp [Stops] at hstop
    | cons z g' =>
      obtain ⟨rfl, -⟩ := List.cons.inj hdg
      exact Trivia.line hl ht

theorem skipTrivia_trivia {c c₁ : Cursor} (h : skipTrivia c = .ok c₁) :
    ∃ g, c.Passes g c₁ ∧ Trivia c₁.rest.isEmpty g := by
  fun_induction skipTrivia c
  case case1 =>
    cases h
    exact ⟨[], .refl _, .nil⟩
  case case2 c line hrest ih =>
    obtain ⟨g, hg, ht⟩ := ih h
    have hskip : c.Passes ('/' :: '/' :: line.takeWhile (· != '\n')) (c.skip (2 + (line.takeWhile (· != '\n')).length)) :=
      passes_skip_of_rest (r := line.dropWhile (· != '\n')) (by rw [hrest]; simp) (by simp; omega)
    have hl : '\n' ∉ line.takeWhile (· != '\n') := fun hm => by
      simpa using List.mem_takeWhile_imp (p := fun y => y != '\n') hm
    have hrest' : (c.skip (2 + (line.takeWhile (· != '\n')).length)).rest = line.dropWhile (· != '\n') := by
      simp [skip, hrest, Nat.add_comm 2, drop_length_takeWhile]
    have hd : ∀ y ∈ (line.dropWhile (· != '\n')).head?, y = '\n' := by
      intro y hy
      have := List.head?_dropWhile_not (· != '\n') line
      rw [Option.mem_def.mp hy] at this
      simpa using this
    refine ⟨_, hskip.trans hg, ?_⟩
    simpa using trivia_lineComment hl hd (hrest' ▸ hg.rest) ht (skipTrivia_stops h)
  case case3 c body hrest n hn ih =>
    obtain ⟨g, hg, ht⟩ := ih h
    obtain ⟨-, hlen, -⟩ := commentLength_take hn
    have hskip : c.Passes ('/' :: '*' :: body.take n) (c.skip (n + 2)) :=
      passes_skip_of_rest (r := body.drop n) (by rw [hrest]; simp) (by simp; omega)
    exact ⟨_, hskip.trans hg, by simpa using Trivia.block (commentLength_comment hn) ht⟩
  case case4 => cases h
  case case5 c ch _ _ _ hrest hb ih =>
    obtain ⟨g, hg, ht⟩ := ih h
    exact ⟨ch :: g, (passes_skip_of_rest (m := [ch]) hrest rfl).trans hg, .blank hb ht⟩
  case case6 =>
    cases h
    exact ⟨[], .refl _, .nil⟩

def IsWord (w : List Char) : Prop :=
  ∃ c cs, w = c :: cs ∧ isWordStart c = true ∧ ∀ x ∈ cs, isWordChar x = true

-- What the kind of a token says of its lexeme: a keyword is its word, an identifier is any other
-- word and names it, a number literal is its own text and starts with a digit, a symbol is its one
-- punctuation character (not `_`, which starts a word), a string literal holds what the body
-- between its quotes stands for, and the end of the text has no lexeme.
def Agrees : TokenKind → List Char → Prop
  | .keyword k, lex => lex = k.text.toList
  | .identifier n, lex => lex = n.toList ∧ IsWord lex ∧ ∀ k : Keyword, n ≠ k.text
  | .number n, lex => lex = n.toList ∧ ∃ d ds, lex = d :: ds ∧ d.isDigit = true
  | .symbol c, lex => lex = [c] ∧ isPunctuation c = true ∧ isWordStart c = false
  | .string v, lex => ∃ body, lex = '"' :: (body ++ ['"']) ∧ Decodes body v.toList
  | .eof, lex => lex = []

theorem Keyword.ofWord?_eq_some {w : String} {k : Keyword} : Keyword.ofWord? w = some k → k.text = w := by
  intro h
  simpa using List.find?_some h

theorem Keyword.text_word (k : Keyword) :
    ∃ c cs, k.text.toList = c :: cs ∧ 2 ≤ cs.length ∧ c.isDigit = false ∧ c ≠ '"' ∧ isWordStart c = true := by
  cases k <;> exact ⟨_, _, rfl, by decide, by decide, by decide, by decide +kernel⟩

theorem isWordStart_of_isDigit {d : Char} (hd : d.isDigit = true) : isWordStart d = false := by
  have hletter : ∀ n < 10, Text.letterRanges.contains (48 + n) = false := by decide +kernel
  have hn : 48 ≤ d.toNat ∧ d.toNat ≤ 57 := by
    simp only [Char.isDigit, Bool.and_eq_true, decide_eq_true_eq] at hd
    exact ⟨hd.1, hd.2⟩
  have := hletter (d.toNat - 48) (by omega)
  rw [show 48 + (d.toNat - 48) = d.toNat by omega] at this
  simp [isWordStart, Text.isLetter, this]
  rintro rfl
  simp at hn

theorem Agrees.keyword_iff {k : TokenKind} {lex : List Char} (h : Agrees k lex) :
    (∃ kw, k = .keyword kw) ↔ ∃ kw : Keyword, lex = kw.text.toList := by
  constructor
  · rintro ⟨kw, rfl⟩
    exact ⟨kw, h⟩
  · rintro ⟨kw, rfl⟩
    obtain ⟨c, cs, hc, hlen, hdigit, hquote, -⟩ := Keyword.text_word kw
    cases k with
    | keyword kw' => exact ⟨kw', rfl⟩
    | identifier n => exact absurd (String.toList_inj.mp h.1).symm (h.2.2 kw)
    | number n =>
      obtain ⟨d, ds, hd, hdig⟩ := h.2
      rw [hc] at hd
      obtain ⟨rfl, -⟩ := List.cons.inj hd
      simp [hdig] at hdigit
    | symbol c' =>
      have := congrArg List.length h.1
      rw [hc, List.length_cons, List.length_singleton] at this
      omega
    | string v =>
      obtain ⟨body, hb, -⟩ := h
      rw [hc] at hb
      exact absurd (List.cons.inj hb).1 hquote
    | eof =>
      have : kw.text.toList = [] := h
      simp [hc] at this

theorem Agrees.identifier {k : TokenKind} {lex : List Char} (h : Agrees k lex) (hw : IsWord lex)
    (hk : ∀ kw : Keyword, lex ≠ kw.text.toList) : k = .identifier (String.ofList lex) := by
  obtain ⟨c, cs, rfl, hc, -⟩ := hw
  cases k with
  | keyword kw => exact absurd h (hk kw)
  | identifier n => simp [h.1]
  | number n =>
    obtain ⟨d, ds, hd, hdig⟩ := h.2
    obtain ⟨rfl, -⟩ := List.cons.inj hd
    simp [isWordStart_of_isDigit hdig] at hc
  | symbol c' =>
    obtain ⟨hl, -, hs⟩ := h
    obtain ⟨rfl, -⟩ := List.cons.inj hl
    simp [hs] at hc
  | string v =>
    obtain ⟨body, hb, -⟩ := h
    obtain ⟨rfl, -⟩ := List.cons.inj hb
    exact absurd hc (by decide +kernel)
  | eof => cases h

theorem Agrees.ne_nil {k : TokenKind} {lex : List Char} (h : Agrees k lex) (hk : k ≠ .eof) :
    lex ≠ [] := by
  cases k with
  | keyword kw =>
    obtain ⟨c, cs, hc, -⟩ := Keyword.text_word kw
    have : lex = kw.text.toList := h
    simp [this, hc]
  | identifier n => obtain ⟨c, cs, rfl, -⟩ := h.2.1; simp
  | number n => obtain ⟨d, ds, rfl, -⟩ := h.2; simp
  | symbol c => simp [h.1]
  | string v => obtain ⟨body, rfl, -⟩ := h; simp
  | eof => exact absurd rfl hk

-- A counted token's lexeme is the text it takes.
-- What a word start begins is a word.
theorem isWord_takeWhile {ch : Char} {rest : List Char} (hw : isWordStart ch = true) :
    IsWord ((ch :: rest).takeWhile isWordChar) := by
  have hwc : isWordChar ch = true := by
    simp only [isWordStart, Bool.or_eq_true, beq_iff_eq] at hw
    simp only [isWordChar, Bool.or_eq_true, beq_iff_eq]
    tauto
  rw [List.takeWhile_cons_of_pos hwc]
  exact ⟨ch, _, rfl, hw, fun x hx => List.mem_takeWhile_imp hx⟩

theorem lexeme_take {c c' : Cursor} {k : TokenKind} {n : Nat} {t : Token} (h : take c k n = (t, c')) :
    t.lexeme.toList = c.rest.take n := by
  simp only [take, Prod.mk.injEq] at h
  rw [← h.1]
  simp [peekText]

theorem nextToken_agrees {c c₁ c' : Cursor} {t : Token} {ch : Char} {rest : List Char}
    (hs : skipTrivia c = .ok c₁) (hr : c₁.rest = ch :: rest) (h : nextToken c = .ok (t, c')) :
    c₁.Passes t.lexeme.toList c' ∧ t.span = ⟨c₁.pos, c'.pos⟩ ∧ t.kind ≠ .eof ∧
      Agrees t.kind t.lexeme.toList := by
  obtain ⟨c₂, hs₂, he | ⟨ch', rest', hr', hstr | ⟨-, k, n, hn, htake, hkind⟩⟩⟩ := nextToken_eq_ok h
  all_goals rw [hs] at hs₂; cases hs₂
  · exact absurd (hr.symm.trans he.1) (by simp)
  · -- a string literal: its token is the one the grammar gives
    rw [hr] at hr'
    obtain ⟨rfl, rfl⟩ := List.cons.inj hr'
    obtain ⟨rfl, -⟩ := hstr
    rw [nextToken_skipTrivia hs, show c₁ = ⟨c₁.pos, '"' :: rest⟩ by rw [← hr]] at h
    obtain ⟨body, v, r, rfl, hd, rfl, rfl⟩ := nextToken_quote_eq_ok_iff.mp h
    refine ⟨⟨by simp [hr], by simp⟩, rfl, by simp, ⟨body, by simp, by simpa using hd⟩⟩
  · -- a number, a word or a symbol: the characters it counts
    obtain ⟨hp, hspan, rfl⟩ := take_passes htake
    have hlex := lexeme_take htake
    rw [hr] at hr'
    obtain ⟨rfl, rfl⟩ := List.cons.inj hr'
    refine ⟨hlex ▸ hp, hspan, ?_, ?_⟩
    · rcases hkind with ⟨-, -, hk⟩ | ⟨-, -, -, hk⟩ | ⟨-, -, -, -, hk⟩ <;> rw [hk]
      · simp
      · cases Keyword.ofWord? (c₁.peekText n) <;> simp
      · simp
    have hpeek : (c₁.peekText n).toList = c₁.rest.take n := by simp [peekText]
    obtain ⟨n', rfl⟩ : ∃ n', n = n' + 1 := ⟨n - 1, by omega⟩
    rcases hkind with ⟨hd, -, hk⟩ | ⟨hd, hw, hn', hk⟩ | ⟨hd, hw, hpunct, hn', hk⟩ <;> rw [hk]
    · exact ⟨by rw [hlex, hpeek], ch, rest.take n', by simp [hlex, hr], hd⟩
    · rw [hn'] at hlex hpeek ⊢
      have hword : (c₁.rest.take (((ch :: rest).takeWhile isWordChar).length)) = (ch :: rest).takeWhile isWordChar := by
        rw [hr, take_length_takeWhile]
      cases hkw : Keyword.ofWord? (c₁.peekText ((ch :: rest).takeWhile isWordChar).length) with
      | some kw =>
        simp only [Option.elim, Agrees]
        rw [Keyword.ofWord?_eq_some hkw, hlex, hpeek]
      | none =>
        simp only [Option.elim, Agrees]
        refine ⟨by rw [hlex, hpeek], by rw [hlex, hword]; exact isWord_takeWhile hw, fun kw hkt => ?_⟩
        rw [hkt, Keyword.ofWord?_text] at hkw
        cases hkw
    · obtain rfl : n' = 0 := by omega
      refine ⟨by simp [hlex, hr], hpunct, by simpa using hw⟩

-- `Spaced p cs ts`: read from the position `p`, the text `cs` is trivia and a token of `ts` in
-- turn, each token spanning its lexeme, which its kind agrees with, and then trivia to the end of
-- the text, where the last token, the end of the text, stands with an empty span.
inductive Spaced : Position → List Char → List Token → Prop
  | eof {p : Position} {g : List Char} : Trivia true g →
      Spaced p g [⟨.eof, "", ⟨p.advanceAll g, p.advanceAll g⟩⟩]
  | token {p : Position} {g r : List Char} {t : Token} {ts : List Token} : Trivia false g →
      t.kind ≠ .eof → Agrees t.kind t.lexeme.toList →
      t.span = ⟨p.advanceAll g, (p.advanceAll g).advanceAll t.lexeme.toList⟩ →
      Spaced t.span.stop r ts → Spaced p (g ++ (t.lexeme.toList ++ r)) (t :: ts)

theorem Lexes.spaced {c : Cursor} {ts : List Token} (h : Lexes c ts) : Spaced c.pos c.rest ts := by
  induction h with
  | @eof c c' t hn ht =>
    obtain ⟨c₁, hs, he | ⟨ch, rest, hr, -⟩⟩ := nextToken_eq_ok hn
    · obtain ⟨hnil, rfl, -⟩ := he
      obtain ⟨g, hg, htr⟩ := skipTrivia_trivia hs
      rw [hnil] at htr
      have hc : c.rest = g := by simpa [hnil] using hg.rest
      rw [hc, hg.pos]
      exact .eof htr
    · exact absurd ht (nextToken_agrees hs hr hn).2.2.1
  | @cons c c' t ts hn ht _ ih =>
    obtain ⟨c₁, hs, he | ⟨ch, rest, hr, -⟩⟩ := nextToken_eq_ok hn
    · exact absurd (by rw [he.2.1]) ht
    · obtain ⟨hp, hspan, -, hag⟩ := nextToken_agrees hs hr hn
      obtain ⟨g, hg, htr⟩ := skipTrivia_trivia hs
      rw [hr] at htr
      have hrest : c.rest = g ++ (t.lexeme.toList ++ c'.rest) := by rw [hg.rest, hp.rest]
      rw [hrest]
      refine .token htr ht hag (by rw [hspan, hp.pos, hg.pos]) ?_
      rw [hspan]
      exact ih

theorem passes_ofSource_bom (s : String) : ∃ bom, (bom = [] ∨ bom = [byteOrderMark]) ∧
    (⟨.start, s.toList⟩ : Cursor).Passes bom (ofSource s) := by
  unfold ofSource
  split
  case h_1 ch rest hs =>
    split
    case isTrue hb => exact ⟨[ch], .inr (by rw [hb]), ⟨hs, rfl⟩⟩
    case isFalse => exact ⟨[], .inl rfl, ⟨hs, rfl⟩⟩
  case h_2 hs => exact ⟨[], .inl rfl, ⟨hs, rfl⟩⟩

namespace Spaced

variable {p : Position} {cs : List Char} {ts : List Token}

-- The last token is the end of the text, with an empty span where the text ends, and every
-- token before it takes at least one byte.
theorem eof_last (h : Spaced p cs ts) :
    ∃ toks, ts = toks ++ [⟨.eof, "", ⟨p.advanceAll cs, p.advanceAll cs⟩⟩] ∧
      ∀ t ∈ toks, t.kind ≠ .eof ∧ t.span.start.offset < t.span.stop.offset := by
  induction h with
  | eof => exact ⟨[], rfl, by simp⟩
  | @token p g r t ts _ ht hag hspan _ ih =>
    obtain ⟨toks, rfl, htoks⟩ := ih
    refine ⟨t :: toks, by simp [hspan, Position.advanceAll_append], fun u hu => ?_⟩
    rcases List.mem_cons.mp hu with rfl | hu
    · obtain ⟨x, lex, hlex⟩ := List.exists_cons_of_ne_nil (hag.ne_nil ht)
      have hstop : u.span.stop.offset = u.span.start.offset + Utf8.byteCount u.lexeme.toList := by
        rw [hspan]
        exact Position.offset_advanceAll _ _
      have := Char.utf8Size_pos x
      rw [hlex, Utf8.byteCount_cons] at hstop
      exact ⟨ht, by omega⟩
    · exact htoks u hu

theorem pairwise (h : Spaced p cs ts) :
    ts.Pairwise (fun t u => t.span.stop.offset ≤ u.span.start.offset) ∧
      ∀ t ∈ ts, p.offset ≤ t.span.start.offset := by
  induction h with
  | eof => simp [Position.offset_advanceAll]
  | @token p g r t ts _ _ _ hspan _ ih =>
    obtain ⟨hpw, hle⟩ := ih
    have hstart : t.span.start.offset = p.offset + Utf8.byteCount g := by
      rw [hspan]
      exact Position.offset_advanceAll _ _
    have hstop : t.span.stop.offset = t.span.start.offset + Utf8.byteCount t.lexeme.toList := by
      rw [hspan]
      exact Position.offset_advanceAll _ _
    refine ⟨.cons (fun u hu => hle u hu) hpw, fun u hu => ?_⟩
    rcases List.mem_cons.mp hu with rfl | hu
    · omega
    · have := hle u hu
      omega

theorem layout (h : Spaced p cs ts) : Layout Token.span (fun t lex => t.lexeme.toList = lex) p cs ts := by
  induction h with
  | @eof p g => exact .cons (show g = g ++ [] ++ [] by simp) rfl rfl rfl .nil
  | @token p g r t ts _ _ _ hspan _ ih =>
    exact .cons (show g ++ (t.lexeme.toList ++ r) = g ++ t.lexeme.toList ++ r by simp)
      (by rw [hspan]) (by rw [hspan]) rfl ih

theorem agrees (h : Spaced p cs ts) : ∀ t ∈ ts, Agrees t.kind t.lexeme.toList := by
  induction h with
  | eof => simp [Agrees]
  | token _ _ hag _ _ ih =>
    intro u hu
    rcases List.mem_cons.mp hu with rfl | hu
    · exact hag
    · exact ih u hu

theorem length_le (h : Spaced p cs ts) : ts.length ≤ cs.length + 1 := by
  induction h with
  | eof => simp
  | @token p g r t ts _ ht hag _ _ ih =>
    have := List.length_pos_iff.mpr (hag.ne_nil ht)
    simp only [List.length_cons, List.length_append]
    omega

end Spaced

-- Reading a text into tokens covers it: the text is an optional leading byte order mark, then
-- trivia and tokens in turn, and trivia; the last token, and only it, is the end of the text, with
-- an empty span at the text's length in bytes; the other tokens take at least one byte each, stand
-- in order without overlapping, and each is the slice of the text at its span; each kind agrees
-- with its lexeme, a keyword exactly when the lexeme is a keyword's word and an identifier naming
-- any other word; and there is at most one token per character, and the end.
theorem tokenize_covers {s : String} {ts : List Token} (h : tokenize s = .ok ts) :
    (∃ toks, ts = toks ++ [⟨.eof, "", ⟨Position.start.advanceAll s.toList,
        Position.start.advanceAll s.toList⟩⟩] ∧
      (Position.start.advanceAll s.toList).offset = s.utf8ByteSize ∧
      ∀ t ∈ toks, t.kind ≠ .eof ∧ t.span.start.offset < t.span.stop.offset) ∧
    ts.Pairwise (fun t u => t.span.stop.offset ≤ u.span.start.offset) ∧
    (∀ t ∈ ts, Utf8.slice s.toList t.span.start.offset t.span.stop.offset = t.lexeme.toList) ∧
    (∃ bom rest, (bom = [] ∨ bom = ['\uFEFF']) ∧ s.toList = bom ++ rest ∧
      Spaced (Position.start.advanceAll bom) rest ts) ∧
    (∀ t ∈ ts, Agrees t.kind t.lexeme.toList ∧
      ((∃ k, t.kind = .keyword k) ↔ ∃ k : Keyword, t.lexeme.toList = k.text.toList) ∧
      (IsWord t.lexeme.toList → (∀ k : Keyword, t.lexeme.toList ≠ k.text.toList) →
        t.kind = .identifier t.lexeme)) ∧
    ts.length ≤ s.length + 1 := by
  obtain ⟨bom, hbom, hpass⟩ := passes_ofSource_bom s
  have hsp : Spaced (Position.start.advanceAll bom) (ofSource s).rest ts := by
    rw [← hpass.pos]
    exact (tokenize_eq_ok_iff.mp h).spaced
  have hsrc : s.toList = bom ++ (ofSource s).rest := hpass.rest
  have hend : (Position.start.advanceAll bom).advanceAll (ofSource s).rest =
      Position.start.advanceAll s.toList := by
    rw [hsrc, Position.advanceAll_append]
  obtain ⟨toks, hts, htoks⟩ := hsp.eof_last
  refine ⟨⟨toks, by rw [hts, hend], ?_, htoks⟩, hsp.pairwise.1, ?_, ⟨bom, _, hbom, hsrc, hsp⟩,
    fun t ht => ?_, ?_⟩
  · simp [Position.offset_advanceAll, Position.start, Utf8.utf8ByteSize_eq]
  · -- the text before the tokens is the byte order mark, if any
    have hl := hsp.layout.slice hsrc (by simp [Position.offset_advanceAll, Position.start])
    exact fun t ht => (hl t ht).symm
  · have hag := hsp.agrees t ht
    refine ⟨hag, hag.keyword_iff, fun hw hk => ?_⟩
    simpa using hag.identifier hw hk
  · have := hsp.length_le
    have hlen : s.toList.length = bom.length + (ofSource s).rest.length := by
      rw [hsrc, List.length_append]
    rw [← String.length_toList]
    omega

def importLine : String := "import \"a\\n\" // note\n"

theorem tokenize_covers_importLine : ∃ ts, tokenize importLine = .ok ts ∧
    ∃ bom rest, (bom = [] ∨ bom = ['\uFEFF']) ∧ importLine.toList = bom ++ rest ∧
      Spaced (Position.start.advanceAll bom) rest ts := by
  obtain ⟨ts, ht⟩ : ∃ ts, tokenize importLine = .ok ts := by
    have h : (tokenize importLine).toOption.isSome = true := by decide +kernel
    revert h
    cases tokenize importLine <;> simp [Except.toOption]
  exact ⟨ts, ht, (tokenize_covers ht).2.2.2.1⟩

end Lexer

end ContractDeploy
