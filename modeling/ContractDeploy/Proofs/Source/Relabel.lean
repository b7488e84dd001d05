import ContractDeploy.Proofs.Source.Lexer
import Mathlib.Data.List.TakeWhile

namespace ContractDeploy

namespace Lexer

open Cursor

variable {c c₁ c' : Cursor} {g V : List Char} {p : Position}

-- The text does not start with a blank or a comment, so reading trivia stops before it.
def Stops : List Char → Prop
  | [] => True
  | ch :: rest => Text.isBlank ch = false ∧ (ch = '/' → rest.head? ≠ some '/' ∧ rest.head? ≠ some '*')

theorem commentLength_take {o k m : Nat} {cs : List Char} (h : commentLength o k cs = some m) :
    k + 2 ≤ m ∧ m - k ≤ cs.length ∧ ∀ B, commentLength o k (cs.take (m - k) ++ B) = some m := by
  fun_induction commentLength o k cs
  case case1 => cases h
  case case2 o k cs ih =>
    have ⟨hle, hlen, hB⟩ := ih h
    refine ⟨by omega, by simp; omega, fun B => ?_⟩
    have htake : m - k = (m - (k + 2)) + 2 := by omega
    rw [htake]
    simpa [commentLength] using hB B
  case case3 k cs =>
    cases h
    refine ⟨Nat.le_refl _, by simp, fun B => ?_⟩
    simp [commentLength]
  case case4 o k cs ho ih =>
    have ⟨hle, hlen, hB⟩ := ih h
    refine ⟨by omega, by simp; omega, fun B => ?_⟩
    have htake : m - k = (m - (k + 2)) + 2 := by omega
    rw [htake]
    simpa [commentLength, ho] using hB B
  case case5 o k x cs hslash hstar ih =>
    have ⟨hle, hlen, hB⟩ := ih h
    refine ⟨by omega, by simp; omega, fun B => ?_⟩
    -- the character after `x` is still one of `cs`, so `x` starts no delimiter
    obtain ⟨y, cs', rfl⟩ := List.exists_cons_of_length_pos (show 0 < cs.length by omega)
    have htake : m - k = (m - (k + 2)) + 1 + 1 := by omega
    rw [htake, List.take_succ_cons, List.take_succ_cons, List.cons_append, List.cons_append,
      commentLength.eq_4 _ _ _ _ (fun _ h1 h2 => hslash _ h1 (by cases h2; rfl))
        (fun _ h1 h2 => hstar _ h1 (by cases h2; rfl))]
    have hB' := hB B
    rwa [show m - (k + 1) = m - (k + 2) + 1 by omega, List.take_succ_cons, List.cons_append] at hB'

@[simp] theorem isBlank_slash : Text.isBlank '/' = false := by decide +kernel

theorem skipTrivia_of_stops (h : Stops c.rest) : skipTrivia c = .ok c := by
  rw [skipTrivia]
  split
  case h_1 => rfl
  case h_2 line hrest | h_3 line hrest =>
    rw [hrest] at h
    simp [Stops] at h
  case h_4 ch tail _ _ hrest =>
    rw [hrest] at h
    rw [if_neg (by simp [h.1])]

theorem skipTrivia_blank {ch : Char} {cs : List Char} (hb : Text.isBlank ch = true) :
    skipTrivia ⟨p, ch :: cs⟩ = skipTrivia ⟨p.advance ch, cs⟩ := by
  -- a blank starts no comment
  have hch : ch ≠ '/' := by
    rintro rfl
    simp at hb
  rw [skipTrivia]
  simp [hb, hch, skip, Position.advanceAll]

@[simp] theorem isBlank_newline : Text.isBlank '\n' = true := by decide +kernel

theorem take_length_takeWhile (q : Char → Bool) (l : List Char) :
    l.take (l.takeWhile q).length = l.takeWhile q := by
  nth_rewrite 2 [← @List.takeWhile_append_dropWhile _ q l]
  exact List.take_left

theorem drop_length_takeWhile (q : Char → Bool) (l : List Char) :
    l.drop (l.takeWhile q).length = l.dropWhile q := by
  nth_rewrite 2 [← @List.takeWhile_append_dropWhile _ q l]
  exact List.drop_left

theorem skipTrivia_line {line : List Char} :
    skipTrivia ⟨p, '/' :: '/' :: line⟩ =
      skipTrivia ⟨p.advanceAll ('/' :: '/' :: line.takeWhile (· != '\n')), line.dropWhile (· != '\n')⟩ := by
  rw [skipTrivia]
  simp [skip, Nat.add_comm 2, take_length_takeWhile, drop_length_takeWhile, Position.advanceAll]

theorem skipTrivia_line_feed {line : List Char} (hl : ∀ x ∈ line, (x != '\n') = true) (r : List Char) :
    skipTrivia ⟨p, '/' :: '/' :: (line ++ '\n' :: r)⟩ =
      skipTrivia ⟨p.advanceAll ('/' :: '/' :: line), '\n' :: r⟩ := by
  have htake : (line ++ '\n' :: r).takeWhile (· != '\n') = line := by
    rw [List.takeWhile_append_of_pos hl, List.takeWhile_cons_of_neg (by simp), List.append_nil]
  have hdrop : (line ++ '\n' :: r).dropWhile (· != '\n') = '\n' :: r := by
    rw [List.dropWhile_append_of_pos hl, List.dropWhile_cons_of_neg (by simp)]
  rw [skipTrivia_line, htake, hdrop]

theorem skipTrivia_block {body : List Char} {n : Nat} (hn : commentLength 0 0 body = some n) :
    skipTrivia ⟨p, '/' :: '*' :: body⟩ =
      skipTrivia ⟨p.advanceAll ('/' :: '*' :: body.take n), body.drop n⟩ := by
  rw [skipTrivia]
  simp [hn, skip, Position.advanceAll]

theorem skipTrivia_stops (h : skipTrivia c = .ok c₁) : Stops c₁.rest := by
  fun_induction skipTrivia c
  case case1 hrest =>
    cases h
    rw [hrest]
    trivial
  case case2 ih | case3 ih | case5 ih => exact ih h
  case case4 => cases h
  case case6 c ch tail hline hblock hrest hb =>
    cases h
    rw [hrest]
    refine ⟨by simpa using hb, fun hch => ⟨fun hs => ?_, fun hs => ?_⟩⟩
    · obtain ⟨line, rfl⟩ := List.head?_eq_some_iff.mp hs
      exact hline line hch rfl
    · obtain ⟨body, rfl⟩ := List.head?_eq_some_iff.mp hs
      exact hblock body hch rfl

theorem skipTrivia_frame (h : skipTrivia c = .ok c₁) (hg : c.rest = g ++ c₁.rest)
    (hne : c₁.rest ≠ []) (hV : Stops V) : skipTrivia ⟨p, g ++ V⟩ = .ok ⟨p.advanceAll g, V⟩ := by
  fun_induction skipTrivia c generalizing g p
  case case1 hrest =>
    cases h
    exact absurd hrest hne
  case case2 c line hrest ih =>
    obtain ⟨m, hm⟩ := skipTrivia_passes h
    have hdrop : (c.skip (2 + (line.takeWhile (· != '\n')).length)).rest = line.dropWhile (· != '\n') := by
      simp [skip, hrest, Nat.add_comm 2, drop_length_takeWhile]
    have hmr := hm.rest
    rw [hdrop] at hmr
    have hline := @List.takeWhile_append_dropWhile _ (· != '\n') line
    have hgm : g = '/' :: '/' :: (line.takeWhile (· != '\n') ++ m) := by
      refine @List.append_cancel_right _ _ c₁.rest _ ?_
      rw [← hg, hrest]
      conv_lhs => rw [← hline, hmr]
      simp
    -- the comment ends at a line feed before `c₁.rest`, which is no blank
    obtain ⟨m', rfl⟩ : ∃ m', m = '\n' :: m' := by
      have hhead := List.head?_dropWhile_not (· != '\n') line
      rw [hmr] at hhead
      cases m with
      | nil =>
        have hstop := skipTrivia_stops h
        obtain ⟨x, rest, hx⟩ := List.exists_cons_of_ne_nil hne
        rw [hx] at hstop hhead
        simp only [List.nil_append, List.head?_cons, bne_eq_false_iff_eq] at hhead
        subst hhead
        simp [Stops] at hstop
      | cons x m' =>
        simp only [List.cons_append, List.head?_cons, bne_eq_false_iff_eq] at hhead
        exact ⟨m', by rw [hhead]⟩
    subst hgm
    have hall : ∀ x ∈ line.takeWhile (· != '\n'), (x != '\n') = true :=
      fun x hx => List.mem_takeWhile_imp (p := fun y => y != '\n') hx
    rw [List.cons_append, List.cons_append, List.append_assoc, List.cons_append,
      skipTrivia_line_feed hall, ← List.cons_append, ih h hm.rest, ← Position.advanceAll_append]
    simp
  case case3 c body hrest n hn ih =>
    obtain ⟨m, hm⟩ := skipTrivia_passes h
    obtain ⟨-, hlen, hB⟩ := commentLength_take hn
    have hdrop : (c.skip (n + 2)).rest = body.drop n := by
      simp [skip, hrest]
    have hmr := hm.rest
    rw [hdrop] at hmr
    have hgm : g = '/' :: '*' :: (body.take n ++ m) := by
      refine @List.append_cancel_right _ _ c₁.rest _ ?_
      rw [← hg, hrest]
      conv_lhs => rw [← List.take_append_drop n body, hmr]
      simp
    subst hgm
    have hlen' : (body.take n).length = n := by simp; omega
    have hcomment : commentLength 0 0 (body.take n ++ (m ++ V)) = some n := by
      simpa using hB (m ++ V)
    rw [List.cons_append, List.cons_append, List.append_assoc, skipTrivia_block hcomment,
      List.take_left' hlen', List.drop_left' hlen', ih h hm.rest, ← Position.advanceAll_append]
    simp
  case case4 => cases h
  case case5 c ch _ _ _ hrest hb ih =>
    obtain ⟨m, hm⟩ := skipTrivia_passes h
    have hgm : g = ch :: m := by
      refine @List.append_cancel_right _ _ c₁.rest _ ?_
      rw [← hg, hrest, List.cons_append, ← hm.rest]
      simp [skip, hrest]
    subst hgm
    rw [List.cons_append, skipTrivia_blank hb, ih h hm.rest]
    rfl
  case case6 =>
    cases h
    have hnil : g = [] := List.append_left_eq_self.mp hg.symm
    subst hnil
    exact skipTrivia_of_stops hV

-- Trivia passed starts with a blank or a slash, so never with a point.
theorem skipTrivia_head (h : skipTrivia c = .ok c₁) (hg : c.rest = g ++ c₁.rest) :
    g.head? ≠ some '.' := by
  have hdot : Text.isBlank '.' = false := by decide +kernel
  fun_induction skipTrivia c generalizing g
  case case1 | case6 =>
    cases h
    rw [List.append_left_eq_self.mp hg.symm]
    simp
  case case2 c line hrest _ | case3 c line hrest _ _ _ =>
    rw [hrest] at hg
    cases g with
    | nil => simp
    | cons x g =>
      obtain ⟨rfl, -⟩ := List.cons.inj hg
      simp
  case case4 => cases h
  case case5 c ch _ _ _ hrest hb _ =>
    rw [hrest] at hg
    cases g with
    | nil => simp
    | cons x g =>
      obtain ⟨rfl, -⟩ := List.cons.inj hg
      simp only [List.head?_cons, ne_eq, Option.some.injEq]
      rintro rfl
      simp [hdot] at hb

-- Two continuations that a token read before them cannot tell apart: the same first character,
-- and after a point the same second one (a number looks past a point for a digit).
def Agree (R R₂ : List Char) : Prop := R.head? = R₂.head? ∧ (R.head? = some '.' → R.take 2 = R₂.take 2)

theorem Agree.refl (R : List Char) : Agree R R := ⟨rfl, fun _ => rfl⟩

theorem takeWhile_eq_nil_congr {q : Char → Bool} {R R₂ : List Char} (h : R.takeWhile q = [])
    (hR : R.head? = R₂.head?) : R₂.takeWhile q = [] := by
  cases R with
  | nil => simp_all [List.head?_eq_none_iff.mp hR.symm]
  | cons x R =>
    obtain ⟨R₂', rfl⟩ := List.head?_eq_some_iff.mp hR.symm
    by_cases hx : q x = true
    · simp [List.takeWhile_cons_of_pos hx] at h
    · exact List.takeWhile_cons_of_neg hx

theorem takeWhile_append_congr {q : Char → Bool} {A R R₂ : List Char}
    (h : ((A ++ R).takeWhile q).length ≤ A.length) (hR : R.head? = R₂.head?) :
    (A ++ R₂).takeWhile q = (A ++ R).takeWhile q := by
  rw [List.takeWhile_append, List.takeWhile_append]
  split
  case isTrue hA =>
    rw [List.takeWhile_append, if_pos hA, List.length_append] at h
    have hnil : R.takeWhile q = [] := List.eq_nil_of_length_eq_zero (by omega)
    rw [hnil, takeWhile_eq_nil_congr hnil hR]
  case isFalse => rfl

-- The digits and `_` of a number's whole part and fraction.
def isNumberPart (c : Char) : Bool := c.isDigit || c == '_'

-- A number in base ten: its whole part, and a fraction where a point and a digit follow.
def plainLength (cs : List Char) : Nat :=
  match cs.drop (cs.takeWhile isNumberPart).length with
  | '.' :: d :: more =>
    if d.isDigit then (cs.takeWhile isNumberPart).length + 1 + ((d :: more).takeWhile isNumberPart).length
    else (cs.takeWhile isNumberPart).length
  | _ => (cs.takeWhile isNumberPart).length

-- A number that starts `0x`, `0X`, `0b` or `0o`.
def radixPrefixed : List Char → Bool
  | '0' :: p :: _ => p == 'x' || p == 'X' || p == 'b' || p == 'o'
  | _ => false

theorem numberLength_eq (cs : List Char) :
    numberLength cs = if radixPrefixed cs then 2 + ((cs.drop 2).takeWhile fun c => c.isAlphanum || c == '_').length
      else plainLength cs := by
  unfold numberLength
  split
  case h_1 x rest => simp only [radixPrefixed, List.drop_succ_cons, List.drop_zero]; split <;> rfl
  case h_2 hno =>
    have hp : radixPrefixed cs = false := by
      unfold radixPrefixed
      split
      case h_1 x rest => exact absurd rfl (hno x rest)
      case h_2 => rfl
    rw [hp, if_neg Bool.false_ne_true]
    rfl

theorem whole_le_plainLength (cs : List Char) :
    (cs.takeWhile isNumberPart).length ≤ plainLength cs := by
  unfold plainLength
  split
  · split <;> omega
  · exact Nat.le_refl _

-- A number in base ten read up to the end of `w` reads the same before any continuation that
-- agrees with the one it saw.
theorem plainLength_frame {w R R₂ : List Char} (h : plainLength (w ++ R) = w.length)
    (ha : Agree R R₂) : plainLength (w ++ R₂) = w.length := by
  have hle : ((w ++ R).takeWhile isNumberPart).length ≤ w.length :=
    h ▸ whole_le_plainLength (w ++ R)
  have hwhole := takeWhile_append_congr hle ha.1
  unfold plainLength at h ⊢
  rw [hwhole]
  generalize ((w ++ R).takeWhile isNumberPart).length = k at h hle ⊢
  rw [List.drop_append_of_le_length hle] at h ⊢
  rcases Nat.lt_or_eq_of_le hle with hlt | rfl
  · -- the whole part ends inside `w`: a point, a digit and the fraction stand in `w`
    obtain ⟨x, w', hx⟩ := List.exists_cons_of_length_pos (show 0 < (w.drop k).length by simp; omega)
    have hlen : w.length = k + 1 + w'.length := by
      have := congrArg List.length hx
      simp only [List.length_drop, List.length_cons] at this
      omega
    rw [hx] at h ⊢
    split at h
    case h_1 _ d more heq =>
      obtain ⟨rfl, hw'⟩ := List.cons.inj heq
      split at h
      case isTrue hd =>
        obtain ⟨d', w'', rfl⟩ : ∃ d' w'', w' = d' :: w'' := by
          cases w' with
          | nil =>
            have hpos : 0 < ((d :: more).takeWhile isNumberPart).length := by
              simp [isNumberPart, hd]
            simp only [List.length_nil] at hlen
            omega
          | cons d' w'' => exact ⟨d', w'', rfl⟩
        obtain ⟨rfl, rfl⟩ := List.cons.inj hw'
        have hfrac := takeWhile_append_congr (q := isNumberPart) (A := d' :: w'')
          (by
            change (List.takeWhile isNumberPart (d' :: (w'' ++ R))).length ≤ (d' :: w'').length
            simp only [List.length_cons, List.append_eq] at hlen h ⊢
            omega) ha.1
        simp only [List.cons_append] at hfrac ⊢
        rw [if_pos hd, hfrac]
        exact h
      case isFalse => omega
    case h_2 => omega
  · -- the whole part is all of `w`: what follows starts no fraction, in `R` or in `R₂`
    rw [List.drop_length] at h ⊢
    simp only [List.nil_append] at h ⊢
    split
    case h_1 _ d more =>
      have hR : R.take 2 = ['.', d] := by rw [ha.2 (by rw [ha.1]; rfl)]; rfl
      have hsplit := List.take_append_drop 2 R
      rw [hR] at hsplit
      rw [← hsplit] at h
      split
      case isTrue hd =>
        simp only [List.cons_append, List.nil_append, if_pos hd] at h
        omega
      case isFalse => rfl
    case h_2 => rfl

-- A number read up to the end of `w` reads the same before any continuation that agrees with
-- the one it saw.
theorem numberLength_frame {w R R₂ : List Char} (hw : w ≠ []) (h : numberLength (w ++ R) = w.length)
    (ha : Agree R R₂) : numberLength (w ++ R₂) = w.length := by
  have htwo : (w ++ R₂).take 2 = (w ++ R).take 2 := by
    obtain ⟨x, w', rfl⟩ := List.exists_cons_of_ne_nil hw
    cases w' with
    | nil => simp [List.take_one, ha.1]
    | cons y w' => simp
  have hradix : radixPrefixed (w ++ R₂) = radixPrefixed (w ++ R) := by
    have hfirst : ∀ cs : List Char, radixPrefixed cs = radixPrefixed (cs.take 2) := by
      intro cs
      match cs with
      | [] | [_] => rfl
      | x :: y :: rest =>
        unfold radixPrefixed
        split <;> split <;> simp_all
    rw [hfirst, htwo, ← hfirst]
  rw [numberLength_eq] at h ⊢
  rw [hradix]
  split
  case isTrue hr =>
    rw [if_pos hr] at h
    have hlen : 2 ≤ w.length := by omega
    rw [List.drop_append_of_le_length hlen] at h ⊢
    rw [takeWhile_append_congr (by simp only [List.length_drop]; omega) ha.1]
    exact h
  case isFalse hr =>
    rw [if_neg hr] at h
    exact plainLength_frame h ha

theorem unicodeEscape_eq_ok {cs : List Char} {ch : Char} {n : Nat} (h : unicodeEscape cs = .ok (ch, n)) :
    ∃ ds more, cs = '\x7b' :: (ds ++ '\x7d' :: more) ∧ (∀ d ∈ ds, isHexDigit d = true) ∧
      n = ds.length + 2 := by
  unfold unicodeEscape at h
  split at h
  case h_1 rest =>
    dsimp only at h
    split at h
    case h_1 more hclose =>
      have hrest := @List.takeWhile_append_dropWhile _ isHexDigit rest
      rw [← drop_length_takeWhile, hclose] at hrest
      refine ⟨rest.takeWhile isHexDigit, more, by rw [hrest], fun d hd => List.mem_takeWhile_imp hd, ?_⟩
      split at h
      case isTrue => cases h
      case isFalse =>
        split at h
        case isTrue =>
          cases h
          rfl
        case isFalse => cases h
    case h_2 => cases h
  case h_2 => cases h

theorem unicodeEscape_braced {ds X : List Char} (hds : ∀ d ∈ ds, isHexDigit d = true) :
    unicodeEscape ('\x7b' :: (ds ++ '\x7d' :: X)) = unicodeEscape ('\x7b' :: (ds ++ ['\x7d'])) := by
  have hclose : isHexDigit '\x7d' = false := by decide
  have htake : ∀ Y : List Char, (ds ++ '\x7d' :: Y).takeWhile isHexDigit = ds := fun Y => by
    rw [List.takeWhile_append_of_pos hds, List.takeWhile_cons_of_neg (by simp [hclose]), List.append_nil]
  simp only [unicodeEscape, htake, List.drop_left]

theorem stringBody_close {start q : Position} {cs acc : List Char} :
    stringBody start ⟨q, '"' :: cs⟩ acc = .ok (String.ofList acc.reverse, ⟨q.advance '"', cs⟩) := by
  rw [stringBody]
  rfl

theorem stringBody_escape {start q : Position} {e ch : Char} {cs acc : List Char}
    (he : simpleEscape e = some ch) :
    stringBody start ⟨q, '\\' :: e :: cs⟩ acc = stringBody start ⟨q.advanceAll ['\\', e], cs⟩ (ch :: acc) := by
  rw [stringBody]
  simp [he, skip]

theorem stringBody_unicode {start q : Position} {ch : Char} {n : Nat} {cs acc : List Char}
    (hu : unicodeEscape cs = .ok (ch, n)) :
    stringBody start ⟨q, '\\' :: 'u' :: cs⟩ acc =
      stringBody start ⟨q.advanceAll ('\\' :: 'u' :: cs.take n), cs.drop n⟩ (ch :: acc) := by
  rw [stringBody]
  simp [hu, skip, simpleEscape, Nat.add_comm 2 n]

theorem stringBody_char {start q : Position} {ch : Char} {cs acc : List Char} (hq : ch ≠ '"')
    (hn : ch ≠ '\n') (hb : ch ≠ '\\') :
    stringBody start ⟨q, ch :: cs⟩ acc = stringBody start ⟨q.advance ch, cs⟩ (ch :: acc) := by
  rw [stringBody]
  split
  case h_1 => rename_i heq; cases heq
  case h_2 => rename_i heq; exact absurd (List.cons.inj heq).1 hq
  case h_3 => rename_i heq; exact absurd (List.cons.inj heq).1 hn
  case h_4 => rename_i heq; exact absurd (List.cons.inj heq).1 hb
  case h_5 =>
    rename_i heq
    obtain ⟨rfl, rfl⟩ := List.cons.inj heq
    simp [skip, Position.advanceAll]

theorem unicodeEscape_frame {cs : List Char} {ch : Char} {n : Nat} (h : unicodeEscape cs = .ok (ch, n)) :
    n ≤ cs.length ∧ ∀ Y, unicodeEscape (cs.take n ++ Y) = .ok (ch, n) := by
  obtain ⟨ds, more, rfl, hds, rfl⟩ := unicodeEscape_eq_ok h
  have htake : ('\x7b' :: (ds ++ '\x7d' :: more)).take (ds.length + 2) = '\x7b' :: (ds ++ ['\x7d']) := by
    have hds' : ds.take (ds.length + 1) = ds := List.take_of_length_le (by omega)
    simp [List.take_append, hds']
  refine ⟨by simp, fun Y => ?_⟩
  rw [htake, List.cons_append, List.append_assoc, List.singleton_append, unicodeEscape_braced hds, ← h]
  exact (unicodeEscape_braced hds).symm

-- A string literal read after its opening quote ends with its closing quote, so it reads the
-- same before any continuation and from any position.
theorem stringBody_frame {start start' q : Position} {acc m R₂ : List Char} {v : String}
    (h : stringBody start c acc = .ok (v, c')) (hm : c.rest = m ++ c'.rest) :
    stringBody start' ⟨q, m ++ R₂⟩ acc = .ok (v, ⟨q.advanceAll m, R₂⟩) := by
  fun_induction stringBody start c acc generalizing m q
  case case2 c acc tail hrest =>
    simp only [Except.ok.injEq, Prod.mk.injEq] at h
    obtain ⟨rfl, rfl⟩ := h
    have hskip : (c.skip 1).rest = tail := by simp [skip, hrest]
    have hm' : m = ['"'] := by
      refine @List.append_cancel_right _ _ tail _ ?_
      rw [← hskip, ← hm, hrest, hskip]
      rfl
    subst hm'
    rw [List.singleton_append, stringBody_close]
    rfl
  case case5 c acc e more hrest ch he _ ih =>
    obtain ⟨body, hbody⟩ := stringBody_passes h
    have hskip : (c.skip 2).rest = more := by simp [skip, hrest]
    have hm' : m = '\\' :: e :: (body ++ ['"']) := by
      refine @List.append_cancel_right _ _ c'.rest _ ?_
      rw [← hm, hrest, ← hskip, hbody.rest]
      rfl
    subst hm'
    rw [List.cons_append, List.cons_append, stringBody_escape he, ih h hbody.rest]
    rfl
  case case6 c acc more ch n hu hrest _ _ ih =>
    obtain ⟨body, hbody⟩ := stringBody_passes h
    obtain ⟨hn, hframe⟩ := unicodeEscape_frame hu
    have hskip : (c.skip (2 + n)).rest = more.drop n := by simp [skip, hrest, Nat.add_comm 2 n]
    have hm' : m = '\\' :: 'u' :: (more.take n ++ (body ++ ['"'])) := by
      refine @List.append_cancel_right _ _ c'.rest _ ?_
      rw [← hm, hrest]
      conv_lhs => rw [← List.take_append_drop n more, ← hskip, hbody.rest]
      simp
    subst hm'
    have hlen : (more.take n).length = n := by simp; omega
    rw [List.cons_append, List.cons_append, List.append_assoc,
      stringBody_unicode (hframe _), List.take_left' hlen, List.drop_left' hlen, ih h hbody.rest,
      ← Position.advanceAll_append]
    simp
  case case9 c acc ch tail hq hn hb hrest ih =>
    obtain ⟨body, hbody⟩ := stringBody_passes h
    have hskip : (c.skip 1).rest = tail := by simp [skip, hrest]
    have hm' : m = ch :: (body ++ ['"']) := by
      refine @List.append_cancel_right _ _ c'.rest _ ?_
      rw [← hm, hrest, ← hskip, hbody.rest]
      rfl
    subst hm'
    rw [List.cons_append, stringBody_char hq hn hb, ih h hbody.rest]
    rfl
  all_goals cases h

theorem plainLength_le (cs : List Char) : plainLength cs ≤ cs.length := by
  unfold plainLength
  split
  case h_1 _ d more hdrop =>
    have hlen := congrArg List.length hdrop
    have hwhole := (List.takeWhile_prefix isNumberPart (l := cs)).length_le
    split
    · have hfrac := (List.takeWhile_prefix isNumberPart (l := d :: more)).length_le
      simp only [List.length_drop, List.length_cons] at hlen hfrac
      omega
    · exact hwhole
  case h_2 => exact (List.takeWhile_prefix _).length_le

theorem numberLength_le (cs : List Char) : numberLength cs ≤ cs.length := by
  rw [numberLength_eq]
  split
  case isTrue hr =>
    have h2 : 2 ≤ cs.length := by
      unfold radixPrefixed at hr
      split at hr
      · simp
      · cases hr
    have := (List.takeWhile_prefix (fun c => c.isAlphanum || c == '_') (l := cs.drop 2)).length_le
    simp only [List.length_drop] at this
    omega
  case isFalse => exact plainLength_le cs

theorem stops_congr {w R R₂ : List Char} (h : Stops (w ++ R)) (hw : w ≠ []) (hR : R.head? = R₂.head?) :
    Stops (w ++ R₂) := by
  obtain ⟨x, w', rfl⟩ := List.exists_cons_of_ne_nil hw
  have hhead : (w' ++ R₂).head? = (w' ++ R).head? := by simp [List.head?_append, hR]
  simp only [List.cons_append, Stops] at h ⊢
  rw [hhead]
  exact h

@[simp] theorem peekText_append {q : Position} {w R : List Char} :
    (⟨q, w ++ R⟩ : Cursor).peekText w.length = String.ofList w := by
  simp [peekText]

theorem take_append {q : Position} {k : TokenKind} {w R : List Char} :
    take ⟨q, w ++ R⟩ k w.length = (⟨k, String.ofList w, ⟨q, q.advanceAll w⟩⟩, ⟨q.advanceAll w, R⟩) := by
  simp [take, skip]

theorem take_eq_append {q p' : Position} {k : TokenKind} {n : Nat} {w R : List Char} {t : Token}
    (h : take ⟨q, w ++ R⟩ k n = (t, ⟨p', R⟩)) (hn : n ≤ (w ++ R).length) :
    n = w.length ∧ t.kind = k ∧ t.lexeme = String.ofList w := by
  have hrest : (w ++ R).drop n = R := by
    simpa [take, skip] using congrArg (fun x => x.2.rest) h
  have hlen : n = w.length := by
    have := congrArg List.length hrest
    simp only [List.length_drop, List.length_append] at this hn
    omega
  subst hlen
  rw [take_append] at h
  obtain ⟨rfl, -⟩ := Prod.mk.inj h
  exact ⟨rfl, rfl, rfl⟩

-- A token read where no trivia comes first, up to the start of `R`, is read the same before
-- any continuation that agrees with `R`, from any position.
theorem nextToken_frame_of_stops {p q p' : Position} {w R R₂ : List Char} {t : Token}
    (h : nextToken ⟨p, w ++ R⟩ = .ok (t, ⟨p', R⟩)) (hs : Stops (w ++ R)) (hw : w ≠ [])
    (ha : Agree R R₂) :
    ∃ t' q', nextToken ⟨q, w ++ R₂⟩ = .ok (t', ⟨q', R₂⟩) ∧ t'.kind = t.kind ∧ t'.lexeme = t.lexeme := by
  have hs₂ : Stops (w ++ R₂) := stops_congr hs hw ha.1
  rw [nextToken, skipTrivia_of_stops (c := ⟨p, w ++ R⟩) hs] at h
  rw [nextToken, skipTrivia_of_stops (c := ⟨q, w ++ R₂⟩) hs₂]
  have hlen := numberLength_le (w ++ R)
  have hword := (List.takeWhile_prefix isWordChar (l := w ++ R)).length_le
  obtain ⟨ch, w', rfl⟩ := List.exists_cons_of_ne_nil hw
  simp only [bind, Except.bind, List.cons_append] at h hlen hword ⊢
  by_cases hq : ch = '"'
  · -- a string literal, read to its closing quote
    subst hq
    simp only [if_true] at h ⊢
    have hskip : ∀ (r : Position) (X : List Char), (⟨r, '"' :: X⟩ : Cursor).skip 1 = ⟨r.advance '"', X⟩ :=
      fun r X => by simp [skip, Position.advanceAll]
    rw [hskip] at h ⊢
    cases hb : stringBody p ⟨p.advance '"', w' ++ R⟩ [] with
    | error e => simp [hb] at h
    | ok vc =>
      obtain ⟨v, c₂⟩ := vc
      simp only [hb, pure, Except.pure, Except.ok.injEq, Prod.mk.injEq] at h
      obtain ⟨rfl, rfl⟩ := h
      have hb' : stringBody q ⟨q.advance '"', w' ++ R₂⟩ [] = _ := stringBody_frame hb rfl
      rw [hb']
      refine ⟨_, _, rfl, rfl, ?_⟩
      have hsub : ∀ a b : Nat, a + b + 1 - b = a + 1 := fun a b => by omega
      simp [peekText, hsub]
  simp only [hq, if_false] at h ⊢
  by_cases hd : ch.isDigit = true
  · -- a number
    simp only [hd, if_true, pure, Except.pure, Except.ok.injEq] at h ⊢
    obtain ⟨hn, hk, hlex⟩ := take_eq_append (w := ch :: w') h (by simpa using hlen)
    have hn₂ := numberLength_frame hw (w := ch :: w') (by simpa using hn) ha
    simp only [List.cons_append] at hn₂
    rw [hn₂, ← List.cons_append, take_append]
    refine ⟨_, _, rfl, ?_, hlex.symm⟩
    rw [hk, hn]
    simp [peekText]
  simp only [hd, Bool.false_eq_true, ↓reduceIte] at h ⊢
  by_cases hw' : isWordStart ch = true
  · -- a word, which stops before a character that does not continue it
    simp only [hw', if_true, pure, Except.pure, Except.ok.injEq] at h ⊢
    obtain ⟨hn, hk, hlex⟩ := take_eq_append (w := ch :: w') h (by simpa using hword)
    have hn₂ := takeWhile_append_congr (q := isWordChar) (A := ch :: w') (by simp only [List.cons_append]; omega) ha.1
    have hn' : (List.takeWhile isWordChar (ch :: (w' ++ R))).length = (ch :: w').length := by
      simpa using hn
    simp only [List.cons_append] at hn₂
    rw [hn₂, hn'] at ⊢
    rw [hn'] at hk
    have hpeek : ∀ (r : Position) (X : List Char),
        (⟨r, ch :: (w' ++ X)⟩ : Cursor).peekText (ch :: w').length = String.ofList (ch :: w') := by
      simp [peekText]
    rw [hpeek] at hk ⊢
    rw [← List.cons_append, take_append]
    exact ⟨_, _, rfl, hk.symm, hlex.symm⟩
  simp only [hw', Bool.false_eq_true, ↓reduceIte] at h ⊢
  by_cases hp : isPunctuation ch = true
  · -- a punctuation character by itself
    simp only [hp, if_true, pure, Except.pure, Except.ok.injEq] at h ⊢
    obtain ⟨hn, hk, hlex⟩ := take_eq_append (w := ch :: w') h (by simp)
    have hw'' : w' = [] := by simpa using hn.symm
    subst hw''
    rw [show (ch :: ([] ++ R₂)) = [ch] ++ R₂ from rfl, show (1 : Nat) = [ch].length from rfl, take_append]
    exact ⟨_, _, rfl, hk.symm, hlex.symm⟩
  · simp only [hp, Bool.false_eq_true, ↓reduceIte] at h
    cases h

theorem nextToken_skipTrivia (h : skipTrivia c = .ok c₁) : nextToken c = nextToken c₁ := by
  simp only [nextToken, h, skipTrivia_of_stops (skipTrivia_stops h), bind, Except.bind]

theorem skipTrivia_move (h : skipTrivia c = .ok c₁) (q : Position) :
    ∃ q', skipTrivia ⟨q, c.rest⟩ = .ok ⟨q', c₁.rest⟩ := by
  have hstop := skipTrivia_stops h
  fun_induction skipTrivia c generalizing q
  case case1 hrest =>
    cases h
    exact ⟨q, skipTrivia_of_stops (by rw [hrest]; trivial)⟩
  case case2 c line hrest ih =>
    obtain ⟨q', hq'⟩ := ih h (q.advanceAll ('/' :: '/' :: line.takeWhile (· != '\n')))
    refine ⟨q', ?_⟩
    rw [hrest, skipTrivia_line, ← hq']
    simp [skip, hrest, Nat.add_comm 2, drop_length_takeWhile]
  case case3 c body hrest n hn ih =>
    obtain ⟨q', hq'⟩ := ih h (q.advanceAll ('/' :: '*' :: body.take n))
    refine ⟨q', ?_⟩
    rw [hrest, skipTrivia_block hn, ← hq']
    simp [skip, hrest]
  case case4 => cases h
  case case5 c ch _ _ _ hrest hb ih =>
    obtain ⟨q', hq'⟩ := ih h (q.advance ch)
    refine ⟨q', ?_⟩
    rw [hrest, skipTrivia_blank hb, ← hq']
    simp [skip, hrest]
  case case6 =>
    cases h
    exact ⟨q, skipTrivia_of_stops hstop⟩

-- A token that ends before `c'.rest` is read the same before any continuation that agrees with
-- it, from any position.
theorem nextToken_frame {q : Position} {t : Token} {m R₂ : List Char} (h : nextToken c = .ok (t, c'))
    (ht : t.kind ≠ .eof) (hm : c.rest = m ++ c'.rest) (ha : Agree c'.rest R₂) :
    ∃ t' q', nextToken ⟨q, m ++ R₂⟩ = .ok (t', ⟨q', R₂⟩) ∧ t'.kind = t.kind ∧ t'.lexeme = t.lexeme := by
  obtain ⟨c₁, hs⟩ : ∃ c₁, skipTrivia c = .ok c₁ := by
    cases hs : skipTrivia c with
    | error e => simp [nextToken, hs, bind, Except.bind] at h
    | ok c₁ => exact ⟨c₁, rfl⟩
  rw [nextToken_skipTrivia hs] at h
  obtain ⟨g, hg⟩ := skipTrivia_passes hs
  obtain ⟨c₂, gap, lex, -, hgap, hlex, -, -⟩ := nextToken_passes h
  have hw : c₁.rest = (gap ++ lex) ++ c'.rest := by rw [hgap.rest, hlex.rest, List.append_assoc]
  have hwne : gap ++ lex ≠ [] := by
    intro hnil
    have := nextToken_advances h ht
    rw [hw, hnil, List.nil_append] at this
    exact Nat.lt_irrefl _ this
  have hmw : m = g ++ (gap ++ lex) := by
    refine @List.append_cancel_right _ _ c'.rest _ ?_
    rw [← hm, hg.rest, hw]
    simp
  have hstop : Stops ((gap ++ lex) ++ c'.rest) := hw ▸ skipTrivia_stops hs
  have hs₂ := skipTrivia_frame (p := q) hs hg.rest (by rw [hw]; exact fun h0 => hwne (List.append_eq_nil_iff.mp h0).1) (stops_congr hstop hwne ha.1)
  have h₁ : nextToken ⟨c₁.pos, (gap ++ lex) ++ c'.rest⟩ = .ok (t, ⟨c'.pos, c'.rest⟩) := by
    rw [← hw]
    exact h
  obtain ⟨t', q', h', hk, hl⟩ := nextToken_frame_of_stops (q := q.advanceAll g) h₁ hstop hwne ha
  refine ⟨t', q', ?_, hk, hl⟩
  rw [hmw, List.append_assoc, nextToken_skipTrivia hs₂]
  exact h'

theorem nextToken_move {q : Position} {t : Token} (h : nextToken c = .ok (t, c')) (ht : t.kind = .eof) :
    ∃ t' q', nextToken ⟨q, c.rest⟩ = .ok (t', ⟨q', c'.rest⟩) ∧ t'.kind = t.kind ∧ t'.lexeme = t.lexeme := by
  obtain ⟨c₁, hs, he | ⟨ch, rest, hrest, hstr | ⟨-, k, n, -, htake, hkind⟩⟩⟩ := nextToken_eq_ok h
  · obtain ⟨hnil, rfl, rfl⟩ := he
    obtain ⟨q', hq'⟩ := skipTrivia_move hs q
    refine ⟨⟨.eof, "", ⟨q', q'⟩⟩, q', ?_, rfl, rfl⟩
    rw [nextToken_skipTrivia hq', hnil, nextToken, skipTrivia_of_stops (c := ⟨q', []⟩) trivial]
    rfl
  · obtain ⟨-, v, -, rfl⟩ := hstr
    exact absurd ht (by simp)
  · rw [(take_passes htake).2.2] at ht
    rcases hkind with ⟨-, -, rfl⟩ | ⟨-, -, -, rfl⟩ | ⟨-, -, -, -, rfl⟩
    · cases ht
    · cases hk : Keyword.ofWord? (c₁.peekText n) <;> simp [hk] at ht
    · cases ht

-- A literal `0x…` of letters and digits.
def HexLiteral (lit : List Char) : Prop := ∃ ds, lit = '0' :: 'x' :: ds ∧ ∀ d ∈ ds, d.isAlphanum = true

theorem nextToken_hexLiteral {q : Position} {lit R : List Char} (hl : HexLiteral lit)
    (hR : ∀ y, R.head? = some y → (y.isAlphanum || y == '_') = false) :
    ∃ t q', nextToken ⟨q, lit ++ R⟩ = .ok (t, ⟨q', R⟩) ∧ t.kind = .number (String.ofList lit) ∧
      t.lexeme = String.ofList lit := by
  obtain ⟨ds, rfl, hds⟩ := hl
  have hzero : Text.isBlank '0' = false := by decide +kernel
  have hs : Stops ('0' :: 'x' :: ds ++ R) := ⟨hzero, by simp⟩
  have hrest : (R.takeWhile fun c => c.isAlphanum || c == '_') = [] := by
    cases R with
    | nil => rfl
    | cons y R => exact List.takeWhile_cons_of_neg (by simp [hR y rfl])
  have hlen : numberLength ('0' :: 'x' :: (ds ++ R)) = ('0' :: 'x' :: ds).length := by
    rw [numberLength_eq]
    have hpart : ∀ d ∈ ds, (d.isAlphanum || d == '_') = true := fun d hd => by simp [hds d hd]
    simp [radixPrefixed, List.takeWhile_append_of_pos hpart, hrest]
    omega
  rw [nextToken, skipTrivia_of_stops (c := ⟨q, '0' :: 'x' :: ds ++ R⟩) hs]
  simp only [bind, Except.bind, List.cons_append]
  have hdigit : ('0').isDigit = true := by decide
  simp only [show ('0' = '"') = False by decide, hdigit, if_false, if_true, pure, Except.pure, hlen]
  rw [← List.cons_append, ← List.cons_append, take_append]
  exact ⟨_, _, rfl, by rw [peekText_append], rfl⟩

end Lexer

namespace Token

-- Same kind and text, wherever it stands.
def SameText (t u : Token) : Prop := u.kind = t.kind ∧ u.lexeme = t.lexeme

theorem SameText.refl (t : Token) : t.SameText t := ⟨rfl, rfl⟩

-- The token read in place of `t` where `σ` writes a literal at the span of a string: a number
-- of that text.
def relabel (σ : Span → Option String) (t : Token) : Token :=
  match t.kind, σ t.span with
  | .string _, some lit => ⟨.number lit, lit, t.span⟩
  | _, _ => t

theorem relabel_of_none {σ : Span → Option String} {t : Token}
    (h : ∀ v, t.kind = .string v → σ t.span = none) : t.relabel σ = t := by
  unfold relabel
  split
  case h_1 v lit hk hσ => exact absurd hσ (by rw [h v hk]; simp)
  case h_2 => rfl

theorem relabel_of_some {σ : Span → Option String} {t : Token} {v lit : String}
    (hk : t.kind = .string v) (hσ : σ t.span = some lit) : t.relabel σ = ⟨.number lit, lit, t.span⟩ := by
  simp [relabel, hk, hσ]

end Token

namespace Lexer

open Cursor

variable {c c' : Cursor} {acc ts : List Token}

-- The tokens read from a cursor to the end of its text, one `nextToken` step at a time.
inductive Lexes : Cursor → List Token → Prop
  | eof {c c' : Cursor} {t : Token} : nextToken c = .ok (t, c') → t.kind = .eof → Lexes c [t]
  | cons {c c' : Cursor} {t : Token} {ts : List Token} :
      nextToken c = .ok (t, c') → t.kind ≠ .eof → Lexes c' ts → Lexes c (t :: ts)

theorem lexes_of_tokensFrom (h : tokensFrom c acc = .ok ts) : ∃ new, ts = acc.reverse ++ new ∧ Lexes c new := by
  fun_induction tokensFrom c acc
  rename_i c acc ih
  cases hn : nextToken c with
  | error e => simp [hn, bind, Except.bind] at h
  | ok tc =>
    obtain ⟨t, c'⟩ := tc
    simp only [hn, bind, Except.bind] at h
    split at h
    case isTrue he =>
      simp only [pure, Except.pure, Except.ok.injEq] at h
      exact ⟨[t], by simp [← h], .eof hn (by simpa [Token.isEof] using he)⟩
    case isFalse he =>
      have hne : t.kind ≠ .eof := by simpa [Token.isEof] using he
      split at h
      case isTrue hlt =>
        obtain ⟨new, hts, hl⟩ := ih t c' hlt h
        exact ⟨t :: new, by simp [hts], .cons hn hne hl⟩
      case isFalse hlt => exact absurd (nextToken_advances hn hne) hlt

theorem tokensFrom_of_lexes (h : Lexes c ts) (acc : List Token) : tokensFrom c acc = .ok (acc.reverse ++ ts) := by
  induction h generalizing acc with
  | eof hn he =>
    rw [tokensFrom]
    simp [hn, bind, Except.bind, Token.isEof, he, pure, Except.pure]
  | @cons c c' t ts hn hne _ ih =>
    rw [tokensFrom]
    have hne' : t.isEof = false := by simpa [Token.isEof] using hne
    simp [hn, bind, Except.bind, hne', nextToken_advances hn hne, ih]

theorem tokenize_eq_ok_iff {s : String} : tokenize s = .ok ts ↔ Lexes (Cursor.ofSource s) ts := by
  constructor
  · intro h
    obtain ⟨new, hts, hl⟩ := lexes_of_tokensFrom h
    simpa [hts] using hl
  · intro h
    simpa [tokenize] using tokensFrom_of_lexes h []

variable {σ : Span → Option String}

-- `Relabels σ c ds ts`: `ts` is read from `c` to the end of its text, and `ds` is the rest of
-- `c` with the literal of each string token at a span that `σ` selects replaced by the selected
-- text. A replaced literal follows trivia and is followed by no letter, digit or `_`.
inductive Relabels (σ : Span → Option String) : Cursor → List Char → List Token → Prop
  | eof {c c' : Cursor} {t : Token} :
      nextToken c = .ok (t, c') → t.kind = .eof → Relabels σ c c.rest [t]
  | keep {c c' : Cursor} {t : Token} {m ds : List Char} {ts : List Token} :
      nextToken c = .ok (t, c') → t.kind ≠ .eof → (∀ v, t.kind = .string v → σ t.span = none) →
      c.rest = m ++ c'.rest → Relabels σ c' ds ts → Relabels σ c (m ++ ds) (t :: ts)
  | swap {c c₁ c' : Cursor} {t : Token} {v lit : String} {g ds : List Char} {ts : List Token} :
      nextToken c = .ok (t, c') → t.kind = .string v → σ t.span = some lit →
      skipTrivia c = .ok c₁ → c.rest = g ++ c₁.rest → g ≠ [] →
      (∀ y, ds.head? = some y → (y.isAlphanum || y == '_') = false) →
      Relabels σ c' ds ts → Relabels σ c (g ++ (lit.toList ++ ds)) (t :: ts)

theorem Agree.append {m X Y : List Char} (hm : m ≠ []) (h : X.head? = Y.head?) : Agree (m ++ X) (m ++ Y) := by
  obtain ⟨x, m', rfl⟩ := List.exists_cons_of_ne_nil hm
  refine ⟨by simp, fun _ => ?_⟩
  cases m' with
  | nil =>
    -- the second character is the first of the continuation
    simp only [List.cons_append, List.nil_append, List.take_succ_cons, List.take_one, h]
  | cons y m' => simp

-- The text after a token is told apart from the text after it in the new reading by neither the
-- first character nor, behind a point, the second.
theorem Relabels.agree {ds : List Char} (h : Relabels σ c ds ts) : Agree c.rest ds := by
  induction h with
  | eof => exact Agree.refl _
  | @keep c c' t m ds ts hn hne _ hm _ ih =>
    have hm' : m ≠ [] := by
      rintro rfl
      have := nextToken_advances hn hne
      rw [hm, List.nil_append] at this
      exact Nat.lt_irrefl _ this
    rw [hm]
    exact Agree.append hm' ih.1
  | @swap c c₁ c' t v lit g ds ts _ _ _ hs hg hne _ _ _ =>
    -- the trivia before the literal starts with a blank or a slash
    have hdot := skipTrivia_head hs hg
    rw [hg]
    obtain ⟨x, g', rfl⟩ := List.exists_cons_of_ne_nil hne
    refine ⟨by simp, fun hx => absurd ?_ hdot⟩
    simpa using hx

theorem skipTrivia_ne_nil {t : Token} (h : nextToken c = .ok (t, c')) (hs : skipTrivia c = .ok c₁)
    (ht : t.kind ≠ .eof) : c₁.rest ≠ [] := by
  obtain ⟨c₂, hs₂, he | ⟨ch, rest, hrest, -⟩⟩ := nextToken_eq_ok h
  · rw [he.2.1] at ht
    exact absurd rfl ht
  · rw [hs] at hs₂
    cases hs₂
    rw [hrest]
    exact List.cons_ne_nil _ _

theorem HexLiteral.stops {lit R : List Char} (hl : HexLiteral lit) : Stops (lit ++ R) := by
  obtain ⟨ds, rfl, -⟩ := hl
  have hzero : Text.isBlank '0' = false := by decide +kernel
  exact ⟨hzero, by simp⟩

-- Reading the text with the literals replaced gives the same tokens, each replaced literal now
-- a number of the selected text, from any position.
theorem Relabels.lexes (hσ : ∀ sp lit, σ sp = some lit → HexLiteral lit.toList) {ds : List Char}
    (h : Relabels σ c ds ts) (q : Position) :
    ∃ us, Lexes ⟨q, ds⟩ us ∧ List.Forall₂ (fun t u => (t.relabel σ).SameText u) ts us := by
  induction h generalizing q with
  | @eof c c' t hn he =>
    obtain ⟨t', q', hn', hk, hl⟩ := nextToken_move (q := q) hn he
    refine ⟨[t'], .eof hn' (hk.trans he), .cons ?_ .nil⟩
    rw [Token.relabel_of_none (fun v hv => by rw [he] at hv; cases hv)]
    exact ⟨hk, hl⟩
  | @keep c c' t m ds ts hn hne hσt hm hr ih =>
    obtain ⟨t', q', hn', hk, hl⟩ := nextToken_frame (q := q) hn hne hm hr.agree
    obtain ⟨us, hus, hf⟩ := ih q'
    refine ⟨t' :: us, .cons hn' (hk ▸ hne) hus, .cons ?_ hf⟩
    rw [Token.relabel_of_none hσt]
    exact ⟨hk, hl⟩
  | @swap c c₁ c' t v lit g ds ts hn hk hσt hs hg _ hR hr ih =>
    -- after the same trivia, the replaced literal is read as one number
    have hl := hσ _ _ hσt
    have hs₂ := skipTrivia_frame (p := q) hs hg (skipTrivia_ne_nil hn hs (by rw [hk]; simp))
      (hl.stops (R := ds))
    obtain ⟨t', q', hn', hk', hl'⟩ := nextToken_hexLiteral (q := q.advanceAll g) hl hR
    obtain ⟨us, hus, hf⟩ := ih q'
    refine ⟨t' :: us, .cons (by rw [nextToken_skipTrivia hs₂]; exact hn') (by rw [hk']; simp) hus, .cons ?_ hf⟩
    rw [Token.relabel_of_some hk hσt]
    simp only [String.ofList_toList] at hk' hl'
    exact ⟨hk', hl'⟩

end Lexer

end ContractDeploy
