import ContractDeploy.Proofs.Source.Relabel

namespace ContractDeploy

namespace Lexer

open Cursor

def escapes : List (Char × Char) :=
  [('0', '\x00'), ('\\', '\\'), ('t', '\t'), ('n', '\n'), ('r', '\r'), ('"', '"'), ('\'', '\'')]

def IsRaw (c : Char) : Prop := c ≠ '"' ∧ c ≠ '\\' ∧ c ≠ '\n'

def ScalarDigits (ds : List Char) : Prop :=
  0 < ds.length ∧ ds.length ≤ 8 ∧ (∀ d ∈ ds, isHexDigit d = true) ∧ (hexValue ds).isValidChar

-- `Decodes body v`: `body`, the text between the quotes of a string literal, is raw characters and
-- escapes, and stands for the characters `v`.
inductive Decodes : List Char → List Char → Prop
  | nil : Decodes [] []
  | raw {c : Char} {b v : List Char} : IsRaw c → Decodes b v → Decodes (c :: b) (c :: v)
  | escape {e ch : Char} {b v : List Char} : (e, ch) ∈ escapes → Decodes b v →
      Decodes ('\\' :: e :: b) (ch :: v)
  | unicode {ds b v : List Char} : ScalarDigits ds → Decodes b v →
      Decodes ('\\' :: 'u' :: '\x7b' :: (ds ++ '\x7d' :: b)) (Char.ofNat (hexValue ds) :: v)

-- A backslash, then `e` and `more`, that start none of the escapes.
def BadEscape (e : Char) (more : List Char) : Prop :=
  (∀ ch, (e, ch) ∉ escapes) ∧
    (e = 'u' → ∀ ds r, more = '\x7b' :: (ds ++ '\x7d' :: r) → ¬ScalarDigits ds)

-- What ends a literal before its closing quote: the end of the text, a backslash at the end, or a
-- line feed.
def Unterminated (rest : List Char) : Prop := rest = [] ∨ rest = ['\\'] ∨ rest.head? = some '\n'

theorem simpleEscape_eq_some {e ch : Char} : simpleEscape e = some ch ↔ (e, ch) ∈ escapes := by
  unfold simpleEscape
  split
  all_goals simp_all [escapes, eq_comm]

theorem unicodeEscape_digits {ds X : List Char} (hds : ∀ d ∈ ds, isHexDigit d = true) :
    unicodeEscape ('\x7b' :: (ds ++ '\x7d' :: X)) =
      if ds.isEmpty || ds.length > 8 then .error unicodeFormDetail
      else if (hexValue ds).isValidChar then .ok (Char.ofNat (hexValue ds), ds.length + 2)
      else .error "Unicode escape is not a valid scalar value" := by
  have hclose : isHexDigit '\x7d' = false := by decide
  have htake : (ds ++ '\x7d' :: X).takeWhile isHexDigit = ds := by
    rw [List.takeWhile_append_of_pos hds, List.takeWhile_cons_of_neg (by simp [hclose]),
      List.append_nil]
  simp only [unicodeEscape, htake, List.drop_left]

theorem unicodeEscape_eq_ok_iff {cs : List Char} {ch : Char} {n : Nat} :
    unicodeEscape cs = .ok (ch, n) ↔ ∃ ds more, cs = '\x7b' :: (ds ++ '\x7d' :: more) ∧
      ScalarDigits ds ∧ ch = Char.ofNat (hexValue ds) ∧ n = ds.length + 2 := by
  constructor
  · intro h
    obtain ⟨ds, more, rfl, hds, rfl⟩ := unicodeEscape_eq_ok h
    rw [unicodeEscape_digits hds] at h
    split at h
    case isTrue => cases h
    case isFalse hlen =>
      split at h
      case isTrue hv =>
        cases h
        simp only [Bool.or_eq_true, List.isEmpty_iff, gt_iff_lt, decide_eq_true_eq, not_or] at hlen
        exact ⟨ds, more, rfl, ⟨List.length_pos_iff.mpr hlen.1, by omega, hds, hv⟩, rfl, rfl⟩
      case isFalse => cases h
  · rintro ⟨ds, more, rfl, ⟨hpos, hle, hds, hv⟩, rfl, rfl⟩
    have hne : ds ≠ [] := List.length_pos_iff.mp hpos
    rw [unicodeEscape_digits hds]
    simp [hne, hv, show ¬ds.length > 8 by omega]

variable {start q : Position} {acc : List Char}

theorem stringBody_decodes {body v : List Char} (h : Decodes body v) (r : List Char) :
    stringBody start ⟨q, body ++ '"' :: r⟩ acc =
      .ok (String.ofList (acc.reverse ++ v), ⟨q.advanceAll (body ++ ['"']), r⟩) := by
  induction h generalizing q acc with
  | nil => simp [stringBody_close, Position.advanceAll]
  | @raw c b v hc _ ih =>
    rw [List.cons_append, stringBody_char hc.1 hc.2.2 hc.2.1, ih]
    simp
  | @escape e ch b v he _ ih =>
    rw [List.cons_append, List.cons_append, stringBody_escape (simpleEscape_eq_some.mpr he), ih]
    simp
  | @unicode ds b v hs _ ih =>
    have hu : unicodeEscape ('\x7b' :: (ds ++ '\x7d' :: (b ++ '"' :: r))) =
        .ok (Char.ofNat (hexValue ds), ds.length + 2) :=
      unicodeEscape_eq_ok_iff.mpr ⟨ds, _, rfl, hs, rfl, rfl⟩
    have htake : ('\x7b' :: (ds ++ '\x7d' :: (b ++ '"' :: r))).take (ds.length + 2) =
        '\x7b' :: (ds ++ ['\x7d']) := by
      simp [List.take_append, List.take_of_length_le (show ds.length ≤ ds.length + 1 by omega)]
    have hdrop : ('\x7b' :: (ds ++ '\x7d' :: (b ++ '"' :: r))).drop (ds.length + 2) = b ++ '"' :: r := by
      simp [List.drop_append]
    simp only [List.cons_append, List.append_assoc]
    rw [stringBody_unicode hu, htake, hdrop, ih]
    simp [← Position.advanceAll_append]

theorem stringBody_eq_ok {c c' : Cursor} {w : String} (h : stringBody start c acc = .ok (w, c')) :
    ∃ body v r, c.rest = body ++ '"' :: r ∧ Decodes body v ∧
      w = String.ofList (acc.reverse ++ v) ∧ c' = ⟨c.pos.advanceAll (body ++ ['"']), r⟩ := by
  fun_induction stringBody start c acc
  case case2 c acc tail hrest =>
    simp only [Except.ok.injEq, Prod.mk.injEq] at h
    obtain ⟨rfl, rfl⟩ := h
    exact ⟨[], [], tail, hrest, .nil, by simp, by simp [skip, hrest, Position.advanceAll]⟩
  case case5 c acc e more hrest ch he _ ih =>
    obtain ⟨body, v, r, hb, hd, rfl, rfl⟩ := ih h
    have hskip : (c.skip 2).rest = more := by simp [skip, hrest]
    refine ⟨'\\' :: e :: body, ch :: v, r, by rw [hrest, ← hskip, hb]; rfl,
      .escape (simpleEscape_eq_some.mp he) hd, by simp, ?_⟩
    simp [skip, hrest]
  case case6 c acc more ch n hu hrest _ _ ih =>
    obtain ⟨body, v, r, hb, hd, rfl, rfl⟩ := ih h
    obtain ⟨ds, X, rfl, hs, rfl, rfl⟩ := unicodeEscape_eq_ok_iff.mp hu
    have hdrop : (c.skip (2 + (ds.length + 2))).rest = X := by
      simp [skip, hrest, List.drop_append, show 2 + (ds.length + 2) = ds.length + 2 + 2 by omega]
    rw [hdrop] at hb
    subst hb
    refine ⟨'\\' :: 'u' :: '\x7b' :: (ds ++ '\x7d' :: body), _ :: v, r, by simp [hrest],
      .unicode hs hd, by simp, ?_⟩
    have htake : c.rest.take (2 + (ds.length + 2)) = '\\' :: 'u' :: '\x7b' :: (ds ++ ['\x7d']) := by
      rw [hrest, show 2 + (ds.length + 2) = ds.length + 1 + 1 + 1 + 1 by omega]
      simp [List.take_append, List.take_of_length_le (show ds.length ≤ ds.length + 1 by omega)]
    simp [skip, htake, ← Position.advanceAll_append]
  case case9 c acc ch tail hq hn hb hrest ih =>
    obtain ⟨body, v, r, hbody, hd, rfl, rfl⟩ := ih h
    have hskip : (c.skip 1).rest = tail := by simp [skip, hrest]
    refine ⟨ch :: body, ch :: v, r, by rw [hrest, ← hskip, hbody]; rfl,
      .raw ⟨hq, hb, hn⟩ hd, by simp, ?_⟩
    simp [skip, hrest]
  all_goals cases h

-- After a body that follows the grammar, an escape that is none of those fails just after its
-- backslash.
theorem stringBody_badEscape {pre v more : List Char} {e : Char} (h : Decodes pre v)
    (hb : BadEscape e more) :
    ∃ detail, stringBody start ⟨q, pre ++ '\\' :: e :: more⟩ acc =
      .error ⟨.invalidEscapeSequence, (q.advanceAll pre).advance '\\', detail, none⟩ := by
  induction h generalizing q acc with
  | nil =>
    have hnone : simpleEscape e = none := by
      cases hs : simpleEscape e with
      | none => rfl
      | some ch => exact absurd (simpleEscape_eq_some.mp hs) (hb.1 ch)
    rw [stringBody]
    simp only [List.nil_append, hnone]
    split
    case isTrue hu =>
      subst hu
      cases hx : unicodeEscape more with
      | error d => exact ⟨d, rfl⟩
      | ok r =>
        obtain ⟨ds, X, hmore, hs, -, -⟩ := unicodeEscape_eq_ok_iff.mp hx
        exact absurd hs (hb.2 rfl ds X hmore)
    case isFalse => exact ⟨_, rfl⟩
  | @raw c b v hc _ ih =>
    rw [List.cons_append, stringBody_char hc.1 hc.2.2 hc.2.1]
    exact ih
  | @escape e' ch b v he _ ih =>
    rw [List.cons_append, List.cons_append, stringBody_escape (simpleEscape_eq_some.mpr he)]
    simpa [← Position.advanceAll_append] using ih
  | @unicode ds b v hs _ ih =>
    have hu : unicodeEscape ('\x7b' :: (ds ++ '\x7d' :: (b ++ '\\' :: e :: more))) =
        .ok (Char.ofNat (hexValue ds), ds.length + 2) :=
      unicodeEscape_eq_ok_iff.mpr ⟨ds, _, rfl, hs, rfl, rfl⟩
    have htake : ('\x7b' :: (ds ++ '\x7d' :: (b ++ '\\' :: e :: more))).take (ds.length + 2) =
        '\x7b' :: (ds ++ ['\x7d']) := by
      simp [List.take_append, List.take_of_length_le (show ds.length ≤ ds.length + 1 by omega)]
    have hdrop : ('\x7b' :: (ds ++ '\x7d' :: (b ++ '\\' :: e :: more))).drop (ds.length + 2) =
        b ++ '\\' :: e :: more := by
      simp [List.drop_append]
    simp only [List.cons_append, List.append_assoc]
    rw [stringBody_unicode hu, htake, hdrop]
    obtain ⟨d, hd⟩ := @ih (q.advanceAll ('\\' :: 'u' :: '\x7b' :: (ds ++ ['\x7d'])))
      (Char.ofNat (hexValue ds) :: acc)
    refine ⟨d, ?_⟩
    rw [hd, ← Position.advanceAll_append]
    simp

-- After a body that follows the grammar, the end of the text or a line feed leaves the literal
-- unterminated, reported at its opening quote.
theorem stringBody_unterminated {pre v rest : List Char} (h : Decodes pre v) (hu : Unterminated rest) :
    stringBody start ⟨q, pre ++ rest⟩ acc =
      .error ⟨.unterminatedString, start, "Unterminated string literal", none⟩ := by
  induction h generalizing q acc with
  | nil =>
    rw [List.nil_append]
    rcases hu with rfl | rfl | hn
    · rw [stringBody]
    · rw [stringBody]
      rfl
    · obtain ⟨r, rfl⟩ := List.head?_eq_some_iff.mp hn
      rw [stringBody]
      rfl
  | @raw c b v hc _ ih =>
    rw [List.cons_append, stringBody_char hc.1 hc.2.2 hc.2.1]
    exact ih
  | @escape e ch b v he _ ih =>
    rw [List.cons_append, List.cons_append, stringBody_escape (simpleEscape_eq_some.mpr he)]
    exact ih
  | @unicode ds b v hs _ ih =>
    have hu : unicodeEscape ('\x7b' :: (ds ++ '\x7d' :: (b ++ rest))) =
        .ok (Char.ofNat (hexValue ds), ds.length + 2) :=
      unicodeEscape_eq_ok_iff.mpr ⟨ds, _, rfl, hs, rfl, rfl⟩
    have hdrop : ('\x7b' :: (ds ++ '\x7d' :: (b ++ rest))).drop (ds.length + 2) = b ++ rest := by
      simp [List.drop_append]
    simp only [List.cons_append, List.append_assoc]
    rw [stringBody_unicode hu, hdrop]
    exact ih

-- Every text after an opening quote either follows the grammar up to a closing quote, or leaves
-- it at a bad escape or where the literal is unterminated.
theorem decodes_trichotomy (x : List Char) :
    (∃ body v r, x = body ++ '"' :: r ∧ Decodes body v) ∨
    (∃ pre v e more, x = pre ++ '\\' :: e :: more ∧ Decodes pre v ∧ BadEscape e more) ∨
    (∃ pre v rest, x = pre ++ rest ∧ Decodes pre v ∧ Unterminated rest) := by
  induction hn : x.length using Nat.strong_induction_on generalizing x with
  | _ n ih =>
  have hstep : ∀ (w u y : List Char), w ≠ [] → x = w ++ y → (∀ {b v}, Decodes b v → Decodes (w ++ b) (u ++ v)) →
      (∃ body v r, x = body ++ '"' :: r ∧ Decodes body v) ∨
      (∃ pre v e more, x = pre ++ '\\' :: e :: more ∧ Decodes pre v ∧ BadEscape e more) ∨
      (∃ pre v rest, x = pre ++ rest ∧ Decodes pre v ∧ Unterminated rest) := by
    intro w u y hw hx hd
    have hlen : y.length < n := by
      have := List.length_pos_iff.mpr hw
      rw [← hn, hx, List.length_append]
      omega
    rcases ih _ hlen y rfl with ⟨b, v, r, rfl, hb⟩ | ⟨b, v, e, more, rfl, hb, hbad⟩ | ⟨b, v, rest, rfl, hb, hu⟩
    · exact .inl ⟨w ++ b, u ++ v, r, by simp [hx], hd hb⟩
    · exact .inr (.inl ⟨w ++ b, u ++ v, e, more, by simp [hx], hd hb, hbad⟩)
    · exact .inr (.inr ⟨w ++ b, u ++ v, rest, by simp [hx], hd hb, hu⟩)
  cases x with
  | nil => exact .inr (.inr ⟨[], [], [], rfl, .nil, .inl rfl⟩)
  | cons c r =>
  by_cases hq : c = '"'
  · exact .inl ⟨[], [], r, by rw [hq]; rfl, .nil⟩
  by_cases hl : c = '\n'
  · exact .inr (.inr ⟨[], [], c :: r, rfl, .nil, .inr (.inr (by rw [hl]; rfl))⟩)
  by_cases hb : c = '\\'
  · subst hb
    cases r with
    | nil => exact .inr (.inr ⟨[], [], ['\\'], rfl, .nil, .inr (.inl rfl)⟩)
    | cons e more =>
    by_cases hs : ∃ ch, (e, ch) ∈ escapes
    · obtain ⟨ch, he⟩ := hs
      exact hstep ['\\', e] [ch] more (by simp) rfl fun hb => .escape he hb
    by_cases hu : e = 'u' ∧ ∃ ds r, more = '\x7b' :: (ds ++ '\x7d' :: r) ∧ ScalarDigits ds
    · obtain ⟨rfl, ds, r, rfl, hds⟩ := hu
      exact hstep ('\\' :: 'u' :: '\x7b' :: (ds ++ ['\x7d'])) [Char.ofNat (hexValue ds)] r (by simp)
        (by simp) fun hb => by simpa using Decodes.unicode hds hb
    · refine .inr (.inl ⟨[], [], e, more, rfl, .nil, fun ch he => hs ⟨ch, he⟩, ?_⟩)
      rintro rfl ds r hmore hds
      exact hu ⟨rfl, ds, r, hmore, hds⟩
  · exact hstep [c] [c] r (by simp) rfl fun hd => .raw ⟨hq, hb, hl⟩ hd

theorem skipTrivia_quote (q : Position) (x : List Char) :
    skipTrivia ⟨q, '"' :: x⟩ = .ok ⟨q, '"' :: x⟩ :=
  skipTrivia_of_stops ⟨by decide +kernel, by simp⟩

theorem nextToken_quote_eq (q : Position) (x : List Char) :
    nextToken ⟨q, '"' :: x⟩ = (do
      let (value, c') ← stringBody q ⟨q.advance '"', x⟩ []
      return (⟨.string value, String.ofList (('"' :: x).take (x.length + 1 - c'.rest.length)),
        ⟨q, c'.pos⟩⟩, c')) := by
  rw [nextToken, skipTrivia_quote]
  simp [bind, Except.bind, skip, peekText, Position.advanceAll]

-- The token of a literal that follows the grammar: its value is what the body stands for, and
-- its text runs from the opening quote to the closing one.
theorem nextToken_decodes {body v : List Char} (h : Decodes body v) (q : Position) (r : List Char) :
    nextToken ⟨q, '"' :: (body ++ '"' :: r)⟩ =
      .ok (⟨.string (String.ofList v), String.ofList ('"' :: (body ++ ['"'])),
          ⟨q, q.advanceAll ('"' :: (body ++ ['"']))⟩⟩, ⟨q.advanceAll ('"' :: (body ++ ['"'])), r⟩) := by
  have htake : ('"' :: (body ++ '"' :: r)).take ((body ++ '"' :: r).length + 1 - r.length) =
      '"' :: (body ++ ['"']) := by
    rw [show (body ++ '"' :: r).length + 1 - r.length = body.length + 1 + 1 by simp; omega]
    simp [List.take_append, List.take_of_length_le]
  rw [nextToken_quote_eq, stringBody_decodes h]
  simp only [bind, Except.bind, pure, Except.pure]
  rw [htake]
  simp [Position.advanceAll]

theorem nextToken_quote_eq_ok_iff {q : Position} {x : List Char} {t : Token} {c' : Cursor} :
    nextToken ⟨q, '"' :: x⟩ = .ok (t, c') ↔ ∃ body v r, x = body ++ '"' :: r ∧ Decodes body v ∧
      t = ⟨.string (String.ofList v), String.ofList ('"' :: (body ++ ['"'])),
        ⟨q, q.advanceAll ('"' :: (body ++ ['"']))⟩⟩ ∧
      c' = ⟨q.advanceAll ('"' :: (body ++ ['"'])), r⟩ := by
  constructor
  · intro h
    cases hb : stringBody q ⟨q.advance '"', x⟩ [] with
    | error e => simp [nextToken_quote_eq, hb, bind, Except.bind] at h
    | ok vc =>
      obtain ⟨body, v, r, hx, hd, -, -⟩ := stringBody_eq_ok hb
      dsimp only at hx
      subst hx
      rw [nextToken_decodes hd, Except.ok.injEq, Prod.mk.injEq] at h
      exact ⟨body, v, r, rfl, hd, h.1.symm, h.2.symm⟩
  · rintro ⟨body, v, r, rfl, hd, rfl, rfl⟩
    exact nextToken_decodes hd q r

theorem nextToken_badEscape {pre v more : List Char} {e : Char} (h : Decodes pre v)
    (hb : BadEscape e more) (q : Position) :
    ∃ detail, nextToken ⟨q, '"' :: (pre ++ '\\' :: e :: more)⟩ =
      .error ⟨.invalidEscapeSequence, q.advanceAll ('"' :: (pre ++ ['\\'])), detail, none⟩ := by
  obtain ⟨detail, hd⟩ := @stringBody_badEscape q (q.advance '"') [] _ _ _ _ h hb
  refine ⟨detail, ?_⟩
  rw [nextToken_quote_eq, hd]
  simp [bind, Except.bind, Position.advanceAll]

theorem nextToken_unterminated {pre v rest : List Char} (h : Decodes pre v) (hu : Unterminated rest)
    (q : Position) :
    nextToken ⟨q, '"' :: (pre ++ rest)⟩ =
      .error ⟨.unterminatedString, q, "Unterminated string literal", none⟩ := by
  rw [nextToken_quote_eq, @stringBody_unterminated q (q.advance '"') [] _ _ _ h hu]
  rfl

def escapeChar (c : Char) : List Char :=
  if c = '\\' then ['\\', '\\'] else if c = '"' then ['\\', '"'] else if c = '\n' then ['\\', 'n']
  else [c]

def quote (v : String) : String := String.ofList ('"' :: (v.toList.flatMap escapeChar ++ ['"']))

theorem decodes_escapeChar (v : List Char) : Decodes (v.flatMap escapeChar) v := by
  induction v with
  | nil => exact .nil
  | cons c v ih =>
    rw [List.flatMap_cons]
    by_cases hb : c = '\\'
    · rw [hb, show escapeChar '\\' = ['\\', '\\'] by rfl]
      exact .escape (by decide) ih
    by_cases hq : c = '"'
    · rw [hq, show escapeChar '"' = ['\\', '"'] by rfl]
      exact .escape (by decide) ih
    by_cases hn : c = '\n'
    · rw [hn, show escapeChar '\n' = ['\\', 'n'] by rfl]
      exact .escape (by decide) ih
    rw [show escapeChar c = [c] by simp [escapeChar, hb, hq, hn]]
    exact .raw ⟨hq, hb, hn⟩ ih

theorem nextToken_nil (p : Position) : nextToken ⟨p, []⟩ = .ok (⟨.eof, "", ⟨p, p⟩⟩, ⟨p, []⟩) := by
  rw [nextToken, skipTrivia_of_stops (c := ⟨p, []⟩) trivial]
  rfl

theorem tokenize_quote (v : String) :
    tokenize (quote v) = .ok [⟨.string v, quote v, ⟨.start, Position.start.advanceAll (quote v).toList⟩⟩,
      ⟨.eof, "", ⟨Position.start.advanceAll (quote v).toList, Position.start.advanceAll (quote v).toList⟩⟩] := by
  have hlit : (quote v).toList = '"' :: (v.toList.flatMap escapeChar ++ ['"']) := by simp [quote]
  have hsrc : Cursor.ofSource (quote v) = ⟨.start, '"' :: (v.toList.flatMap escapeChar ++ '"' :: [])⟩ := by
    simp [Cursor.ofSource, hlit, Cursor.byteOrderMark]
  have hread := nextToken_decodes (decodes_escapeChar v.toList) .start []
  rw [String.ofList_toList] at hread
  rw [tokenize_eq_ok_iff, hsrc, hlit]
  exact .cons hread (by simp) (.eof (nextToken_nil _) rfl)

-- String literals: the literal written for a text reads back as one token that holds the text and
-- spans the whole literal. From an opening quote, a literal is read exactly when the text follows
-- the grammar to a closing quote, and then holds what its body stands for; an escape that is none
-- of the grammar's fails just after its backslash, and a line feed or the end of the text before
-- the closing quote fails at the opening quote. Every text after an opening quote is of one of
-- these three forms.
theorem reads_string_literals :
    (∀ v : String, tokenize (quote v) =
      .ok [⟨.string v, quote v, ⟨.start, Position.start.advanceAll (quote v).toList⟩⟩,
        ⟨.eof, "", ⟨Position.start.advanceAll (quote v).toList,
          Position.start.advanceAll (quote v).toList⟩⟩]) ∧
    (∀ (q : Position) (x : List Char) (t : Token) (c' : Cursor),
      nextToken ⟨q, '"' :: x⟩ = .ok (t, c') ↔ ∃ body v r, x = body ++ '"' :: r ∧ Decodes body v ∧
        t = ⟨.string (String.ofList v), String.ofList ('"' :: (body ++ ['"'])),
          ⟨q, q.advanceAll ('"' :: (body ++ ['"']))⟩⟩ ∧
        c' = ⟨q.advanceAll ('"' :: (body ++ ['"'])), r⟩) ∧
    (∀ (q : Position) (pre v more : List Char) (e : Char), Decodes pre v → BadEscape e more →
      ∃ detail, nextToken ⟨q, '"' :: (pre ++ '\\' :: e :: more)⟩ =
        .error ⟨.invalidEscapeSequence, q.advanceAll ('"' :: (pre ++ ['\\'])), detail, none⟩) ∧
    (∀ (q : Position) (pre v rest : List Char), Decodes pre v → Unterminated rest →
      nextToken ⟨q, '"' :: (pre ++ rest)⟩ =
        .error ⟨.unterminatedString, q, "Unterminated string literal", none⟩) ∧
    (∀ x : List Char, (∃ body v r, x = body ++ '"' :: r ∧ Decodes body v) ∨
      (∃ pre v e more, x = pre ++ '\\' :: e :: more ∧ Decodes pre v ∧ BadEscape e more) ∨
      (∃ pre v rest, x = pre ++ rest ∧ Decodes pre v ∧ Unterminated rest)) :=
  ⟨tokenize_quote, fun _ _ _ _ => nextToken_quote_eq_ok_iff,
    fun q _ _ _ _ h hb => nextToken_badEscape h hb q, fun q _ _ _ h hu => nextToken_unterminated h hu q,
    decodes_trichotomy⟩

end Lexer

end ContractDeploy
