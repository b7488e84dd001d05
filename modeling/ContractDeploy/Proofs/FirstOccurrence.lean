import ContractDeploy.Proofs.DeployedCode
import Mathlib.Data.List.Zip

namespace ContractDeploy

namespace Splice

variable {pat rep t A B P Q lit body : List Char}

-- The text the first-occurrence strategy searches for a location.
def quoted (loc : String) : List Char := '"' :: (loc.toList ++ ['"'])

-- `pat` occurs in `t` at most once: any two occurrences start at the same place.
def AtMostOnce (pat t : List Char) : Prop :=
  ∀ P Q P' Q', t = P ++ pat ++ Q → t = P' ++ pat ++ Q' → P = P'

-- The occurrences of `pat` in `t` are the prefixes of `t` that a suffix starting with `pat`
-- follows, so that they can be counted.
theorem forall_occurrence_iff {R : List Char → Prop} :
    (∀ P Q, t = P ++ pat ++ Q → R P) ↔ ∀ k ≤ t.length, pat <+: t.drop k → R (t.take k) := by
  constructor
  · rintro h k - ⟨Q, hQ⟩
    exact h _ Q (by rw [List.append_assoc, hQ, List.take_append_drop])
  · rintro h P Q rfl
    simpa using h P.length (by simp) ⟨Q, by simp⟩

theorem replaceFirst_of_absent (hp : pat ≠ []) (h : ¬pat <:+: t) :
    replaceFirst pat rep t = t := by
  induction t with
  | nil => simp [replaceFirst, hp]
  | cons c cs ih =>
    have hno : pat.isPrefixOf (c :: cs) = false := by
      rw [Bool.eq_false_iff]
      intro hpre
      exact h (List.isPrefixOf_iff_prefix.mp hpre).isInfix
    simp only [replaceFirst, hno, Bool.false_eq_true, if_false]
    rw [ih (fun hin => h (hin.trans (List.suffix_cons c cs).isInfix))]

theorem replaceFirst_of_first (ht : t = A ++ pat ++ B)
    (hf : ∀ P Q, t = P ++ pat ++ Q → A.length ≤ P.length) :
    replaceFirst pat rep t = A ++ rep ++ B := by
  induction A generalizing t with
  | nil =>
    subst ht
    cases hpat : pat ++ B with
    | nil =>
      obtain ⟨rfl, rfl⟩ := List.append_eq_nil_iff.mp hpat
      simp [replaceFirst]
    | cons c cs =>
      have hpre : pat.isPrefixOf (c :: cs) = true :=
        List.isPrefixOf_iff_prefix.mpr ⟨B, by simp [← hpat]⟩
      rw [List.nil_append, hpat]
      simp only [replaceFirst, hpre, if_true]
      rw [← hpat, List.drop_left, List.nil_append]
  | cons a A ih =>
    subst ht
    -- an occurrence at the very start would come before `A`
    have hno : pat.isPrefixOf (a :: (A ++ pat ++ B)) = false := by
      rw [Bool.eq_false_iff]
      intro hpre
      obtain ⟨Q, hQ⟩ := List.isPrefixOf_iff_prefix.mp hpre
      have := hf [] Q (by simp [hQ])
      simp at this
    have hrest := ih (t := A ++ pat ++ B) rfl fun P Q hPQ =>
      Nat.le_of_succ_le_succ (hf (a :: P) Q (by simp [hPQ]))
    simp only [List.cons_append, replaceFirst, hno, Bool.false_eq_true, if_false, hrest]

theorem replaceFirst_of_atMostOnce (h : AtMostOnce pat (A ++ pat ++ B)) :
    replaceFirst pat rep (A ++ pat ++ B) = A ++ rep ++ B :=
  replaceFirst_of_first rfl fun P Q hPQ => (h A B P Q rfl hPQ) ▸ Nat.le_refl _

section Barrier

variable (hq : '"' ∉ lit) (hb : ¬lit <:+: body)
include hq hb

theorem split_of_barrier (h : A ++ lit ++ B = P ++ ('"' :: (body ++ ['"'])) ++ Q) :
    (∃ C, A = P ++ ('"' :: (body ++ ['"'])) ++ C) ∨
      ∃ C, B = C ++ ('"' :: (body ++ ['"'])) ++ Q ∧ P = A ++ lit ++ C := by
  have hlit : lit ≠ [] := by
    rintro rfl
    exact hb List.nil_infix
  rw [List.append_assoc, List.append_assoc] at h
  rcases List.append_eq_append_iff.mp h with ⟨a, hP, hrest⟩ | ⟨c, hA, hrest⟩
  · -- the occurrence starts where `lit` starts or after it
    rcases List.append_eq_append_iff.mp hrest with ⟨d, ha, hB⟩ | ⟨d, hl, hd⟩
    · exact .inr ⟨d, by simp [hB], by simp [hP, ha]⟩
    · cases d with
      | nil => exact .inr ⟨[], by simp_all, by simp_all⟩
      | cons x d =>
        -- it starts inside `lit`, which has no quote
        have hx : x = '"' := by simpa using (List.cons.inj hd).1.symm
        exact absurd (by simp [hl, hx]) hq
  · -- the occurrence starts before `lit`
    rcases List.append_eq_append_iff.mp hrest with ⟨e, hc, -⟩ | ⟨e, hpat, he⟩
    · exact .inl ⟨e, by simp [hA, hc]⟩
    rcases List.eq_nil_or_concat e with rfl | ⟨e, z, rfl⟩
    · exact .inl ⟨[], by simp_all⟩
    rw [List.concat_eq_append] at hpat he
    -- so it ends at `z`, its closing quote, which is no character of `lit`
    have hz : z = '"' := by
      have hlast : ('"' :: body) ++ ['"'] = (c ++ e) ++ [z] := by simpa using hpat
      simpa using (List.append_inj' hlast rfl).2.symm
    rcases List.append_eq_append_iff.mp he with ⟨f, hf, -⟩ | ⟨f, hl, -⟩
    · rcases List.eq_nil_or_concat f with rfl | ⟨f, y, rfl⟩
      · rw [List.append_nil] at hf
        exact absurd (by rw [← hf, hz]; simp) hq
      rw [List.concat_eq_append, ← List.append_assoc] at hf
      have he' := (List.append_inj' hf rfl).1
      cases c with
      | nil =>
        -- it would open with the first character of `lit`
        obtain ⟨l, ls, rfl⟩ := List.exists_cons_of_ne_nil hlit
        have hopen : '"' :: (body ++ ['"']) = l :: (ls ++ f ++ [z]) := by simpa [he'] using hpat
        exact absurd (by rw [(List.cons.inj hopen).1]; exact List.mem_cons_self) hq
      | cons w c =>
        -- or hold `lit` inside its quotes
        have hbody : body ++ ['"'] = (c ++ lit ++ f) ++ [z] := by
          have hpat' : '"' :: (body ++ ['"']) = w :: (c ++ lit ++ f ++ [z]) := by
            simpa [he'] using hpat
          simpa using (List.cons.inj hpat').2
        exact absurd ⟨c, f, (List.append_inj' hbody rfl).1.symm⟩ hb
    · exact absurd (by simp [hl, hz]) hq

theorem AtMostOnce.replace {m : List Char} (h : AtMostOnce ('"' :: (body ++ ['"'])) (A ++ m ++ B)) :
    AtMostOnce ('"' :: (body ++ ['"'])) (A ++ lit ++ B) := by
  intro P Q P' Q' hPQ hPQ'
  rcases split_of_barrier hq hb hPQ with ⟨C, hA⟩ | ⟨C, hB, hP⟩ <;>
    rcases split_of_barrier hq hb hPQ' with ⟨C', hA'⟩ | ⟨C', hB', hP'⟩
  · exact h P (C ++ m ++ B) P' (C' ++ m ++ B) (by simp [hA]) (by simp [hA'])
  · -- an occurrence before the replaced text and one after it start at different places
    have hP := h P (C ++ m ++ B) (A ++ m ++ C') Q' (by simp [hA]) (by simp [hB'])
    have hlen := congrArg List.length hA
    simp only [hP, List.length_append, List.length_cons] at hlen
    omega
  · have hP' := h (A ++ m ++ C) Q P' (C' ++ m ++ B) (by simp [hB]) (by simp [hA'])
    have hlen := congrArg List.length hA'
    simp only [← hP', List.length_append, List.length_cons] at hlen
    omega
  · have hC := List.append_cancel_left
      (h (A ++ m ++ C) Q (A ++ m ++ C') Q' (by simp [hB]) (by simp [hB']))
    rw [hP, hP', hC]

theorem absent_replace (h : AtMostOnce ('"' :: (body ++ ['"'])) (A ++ ('"' :: (body ++ ['"'])) ++ B)) :
    ¬('"' :: (body ++ ['"'])) <:+: (A ++ lit ++ B) := by
  rintro ⟨P, Q, hPQ⟩
  rcases split_of_barrier hq hb hPQ.symm with ⟨C, hA⟩ | ⟨C, hB, -⟩
  · have hPA := h P (C ++ ('"' :: (body ++ ['"'])) ++ B) A B (by simp [hA]) rfl
    have hlen := congrArg List.length hA
    simp only [hPA, List.length_append, List.length_cons] at hlen
    omega
  · have hAA := h (A ++ ('"' :: (body ++ ['"'])) ++ C) Q A B (by simp [hB]) rfl
    have hlen := congrArg List.length hAA
    simp only [List.length_append, List.length_cons] at hlen
    omega

theorem absent_replace_of_absent {m : List Char}
    (h : ¬('"' :: (body ++ ['"'])) <:+: (A ++ m ++ B)) :
    ¬('"' :: (body ++ ['"'])) <:+: (A ++ lit ++ B) := by
  rintro ⟨P, Q, hPQ⟩
  rcases split_of_barrier hq hb hPQ.symm with ⟨C, hA⟩ | ⟨C, hB, -⟩
  · exact h ⟨P, C ++ m ++ B, by simp [hA]⟩
  · exact h ⟨A ++ m ++ C, Q, by simp [hB]⟩

end Barrier

-- The resolution of the locations in `done` alone.
def resolveOnly (done : List String) (resolve : String → Option Address) (l : String) :
    Option Address :=
  if l ∈ done then resolve l else none

-- Around one import the woven text splits into what stands before its piece and what stands
-- after; pieces that differ only at that import leave both sides as they are.
theorem weave_zipWith_split {R : SourceImport → List Char → Prop}
    (f f' : SourceImport → List Char → List Char) {gaps lexes : List (List Char)}
    {tail : List Char} {is₁ is₂ : List SourceImport} {i : SourceImport}
    (hlen : gaps.length = (is₁ ++ i :: is₂).length) (hR : List.Forall₂ R (is₁ ++ i :: is₂) lexes)
    (hf : ∀ j ∈ is₁ ++ is₂, f j = f' j) :
    ∃ X Y lex, R i lex ∧
      weave gaps (List.zipWith f (is₁ ++ i :: is₂) lexes) tail = X ++ f i lex ++ Y ∧
      weave gaps (List.zipWith f' (is₁ ++ i :: is₂) lexes) tail = X ++ f' i lex ++ Y := by
  induction is₁ generalizing gaps lexes with
  | nil =>
    simp only [List.nil_append] at hlen hR hf ⊢
    obtain ⟨g, gs, rfl⟩ := List.exists_cons_of_length_eq_add_one (by simpa using hlen)
    cases hR with
    | @cons _ lex _ ls hi hrest =>
      have hafter : List.zipWith f' is₂ ls = List.zipWith f is₂ ls :=
        List.zipWith_congr _ _ _ _
          (((List.forall₂_and_left _ _).mpr ⟨hf, hrest⟩).imp fun _ b h => (congrFun h.1 b).symm)
      exact ⟨g, weave gs (List.zipWith f is₂ ls) tail, lex, hi, by simp, by simp [hafter]⟩
  | cons j is₁ ih =>
    simp only [List.cons_append] at hlen hR hf ⊢
    obtain ⟨g, gs, rfl⟩ := List.exists_cons_of_length_eq_add_one (by simpa using hlen)
    cases hR with
    | @cons _ lex₀ _ ls hj hrest =>
      have hfj : f j = f' j := hf j List.mem_cons_self
      obtain ⟨X, Y, lex, hi, hX, hX'⟩ := ih (by simpa using hlen) hrest
        (fun j' hj' => hf j' (List.mem_cons_of_mem _ hj'))
      exact ⟨g ++ f j lex₀ ++ X, Y, lex, hi, by simp [hX], by simp [hX', hfj]⟩

theorem quote_not_mem_literal (a : Address) : '"' ∉ a.literal.toList := by
  obtain ⟨ds, hds, -, hhex⟩ := a.literal_toList
  rw [hds]
  rintro (_ | ⟨_, _ | ⟨_, hmem⟩⟩)
  exact absurd (hhex _ hmem) (by decide)

section Search

variable {resolve : String → Option Address} {gaps lexes : List (List Char)} {tail : List Char}
  {is : List SourceImport} {done : List String} {t : List Char}

-- Where the search stands once the locations of `done` have been taken: the text is the woven
-- one with the imports of those locations substituted, none of them occurs quoted any more, and
-- every other location that resolves occurs quoted at most once.
structure Searched (resolve : String → Option Address) (gaps : List (List Char))
    (is : List SourceImport) (lexes : List (List Char)) (tail : List Char) (done : List String)
    (t : List Char) : Prop where
  text : t = weave gaps (List.zipWith (piece (resolveOnly done resolve)) is lexes) tail
  gone : ∀ L ∈ done, (resolve L).isSome → ¬quoted L <:+: t
  once : ∀ L, (resolve L).isSome → L ∉ done → AtMostOnce (quoted L) t

variable (hlen : gaps.length = is.length)
  (hlit : List.Forall₂ (fun i lex => (resolve i.location).isSome → lex = quoted i.location) is lexes)
  (hone : ∀ L, (resolve L).isSome →
    ∃ is₁ i is₂, is = is₁ ++ i :: is₂ ∧ i.location = L ∧ ∀ j ∈ is₁ ++ is₂, j.location ≠ L)
  (hfree : ∀ L L' a, (resolve L).isSome → resolve L' = some a → ¬a.literal.toList <:+: L.toList)
include hlen hlit hone hfree

-- One search: a location taken before is found nowhere; one not taken before is found at the
-- literal of its import and replaced there.
theorem Searched.replaceFirst {M : String} {a : Address}
    (hs : Searched resolve gaps is lexes tail done t) (hM : (resolve M).isSome)
    (ha : M ∉ done → resolve M = some a) :
    Searched resolve gaps is lexes tail (done ++ [M])
      (Splice.replaceFirst (quoted M) a.literal.toList t) := by
  by_cases hd : M ∈ done
  · have hsame : resolveOnly (done ++ [M]) resolve = resolveOnly done resolve := by
      funext l
      by_cases hl : l = M <;> simp [resolveOnly, hl, hd]
    rw [replaceFirst_of_absent (by simp [quoted]) (hs.gone M hd hM)]
    refine ⟨hsame ▸ hs.text, fun L hL hLs => ?_, fun L hL hn => hs.once L hL (by simp_all)⟩
    rcases List.mem_append.mp hL with hL | hL
    · exact hs.gone L hL hLs
    · exact List.mem_singleton.mp hL ▸ hs.gone M hd hM
  · have hMa := ha hd
    obtain ⟨is₁, i, is₂, rfl, hi, hother⟩ := hone M hM
    obtain ⟨X, Y, lex, hlex, hX, hX'⟩ := weave_zipWith_split
      (piece (resolveOnly done resolve)) (piece (resolveOnly (done ++ [M]) resolve)) hlen hlit
      (fun j hj => by funext lex; simp [piece, resolveOnly, hother j hj])
    have hlexM : lex = quoted M := hi ▸ hlex (hi ▸ hM)
    rw [show piece (resolveOnly done resolve) i lex = quoted M by
      simp [piece, resolveOnly, hi, hd, hlexM]] at hX
    rw [show piece (resolveOnly (done ++ [M]) resolve) i lex = a.literal.toList by
      simp [piece, resolveOnly, hi, hMa]] at hX'
    have ht : t = X ++ quoted M ++ Y := hs.text.trans hX
    have honce := ht ▸ hs.once M hM hd
    have hq := quote_not_mem_literal a
    rw [ht, replaceFirst_of_atMostOnce honce]
    refine ⟨hX'.symm, fun L hL hLs => ?_, fun L hL hn => ?_⟩
    · rcases List.mem_append.mp hL with hL | hL
      · -- taken before: still nowhere
        exact absent_replace_of_absent hq (hfree L M a hLs hMa) (ht ▸ hs.gone L hL hLs)
      · -- taken now: its one occurrence is gone
        rw [List.mem_singleton.mp hL]
        exact absent_replace hq (hfree M M a hM hMa) honce
    · exact AtMostOnce.replace hq (hfree L M a hL hMa) (ht ▸ hs.once L hL (by simp_all))

theorem Searched.foldl {ps : List (String × Address)}
    (hs : Searched resolve gaps is lexes tail done t) (hres : ∀ p ∈ ps, (resolve p.1).isSome)
    (hfirst : ∀ pre M a post, ps = pre ++ (M, a) :: post → M ∉ done → M ∉ pre.map Prod.fst →
      resolve M = some a) :
    Searched resolve gaps is lexes tail (done ++ ps.map Prod.fst)
      (ps.foldl (fun cs p => Splice.replaceFirst (quoted p.1) p.2.literal.toList cs) t) := by
  induction ps generalizing done t with
  | nil => simpa using hs
  | cons p ps ih =>
    obtain ⟨M, a⟩ := p
    have hstep := hs.replaceFirst hlen hlit hone hfree (hres (M, a) List.mem_cons_self)
      (fun hd => hfirst [] M a ps rfl hd (by simp))
    have hrest := ih hstep (fun q hq => hres q (List.mem_cons_of_mem _ hq))
      fun pre M' a' post hps hd hpre => hfirst ((M, a) :: pre) M' a' post (by simp [hps])
        (by simp_all) (by simp_all)
    simpa only [List.map_cons, List.foldl_cons, List.append_assoc, List.singleton_append]
      using hrest

end Search

end Splice

namespace Contract

variable {n : Nat} {loc s acct : String} {tgt : Address} {args : List Json} {c c' : Contract}
  {L : String} {lexes : List (List Char)}

-- The locations and addresses the first-occurrence strategy substitutes, in order: the
-- dependencies, then the aliases.
def firstOccurrencePairs (c : Contract) : List (String × Address) :=
  c.dependencies.toList.map (fun e => (e.1, e.2.target)) ++ c.aliases.toList

theorem deployedCode_firstOccurrence_toList (c : Contract) :
    (c.deployedCode .firstOccurrence).toList = c.firstOccurrencePairs.foldl
      (fun cs p => Splice.replaceFirst (Splice.quoted p.1) p.2.literal.toList cs) c.code.toList := by
  simp only [deployedCode, substituteFirst, String.toList_ofList]
  rfl

theorem resolvedAddress_eq_find? (c : Contract) (L : String) :
    c.resolvedAddress L = (c.firstOccurrencePairs.find? (·.1 == L)).map (·.2) := by
  unfold resolvedAddress firstOccurrencePairs Table.find? Table.toList
  rw [List.find?_append, List.find?_map]
  cases h : c.dependencies.entries.find? (·.1 == L) with
  | none => simp only [Option.map_none, Function.comp_def, h, Option.none_or]
  | some e => simp only [Option.map_some, Function.comp_def, h, Option.some_or]

theorem resolvedAddress_of_first {pre post : List (String × Address)} {M : String} {a : Address}
    (h : c.firstOccurrencePairs = pre ++ (M, a) :: post) (hM : M ∉ pre.map Prod.fst) :
    c.resolvedAddress M = some a := by
  have hpre : pre.find? (·.1 == M) = none :=
    List.find?_eq_none.mpr fun p hp hpM => hM (List.mem_map.mpr ⟨p, hp, by simpa using hpM⟩)
  simp [resolvedAddress_eq_find?, h, List.find?_append, hpre]

theorem resolvedAddress_isSome_iff :
    (c.resolvedAddress L).isSome ↔ L ∈ c.firstOccurrencePairs.map Prod.fst := by
  rw [resolvedAddress_eq_find?, Option.isSome_map, List.find?_isSome]
  simp

-- Every location the contract resolves is imported exactly once, by a literal that reads the
-- location in quotes, and the quoted location occurs in the code nowhere else.
def QuotedOnce (c : Contract) : Prop :=
  ∀ L, (c.resolvedAddress L).isSome → ∃ i, c.imports.filter (·.location == L) = [i] ∧
    Utf8.slice c.code.toList i.span.start.offset i.span.stop.offset = Splice.quoted L ∧
    ∀ P Q, c.code.toList = P ++ Splice.quoted L ++ Q → Utf8.byteCount P = i.span.start.offset

-- No location the contract resolves contains the literal of an address it resolves to.
def AddressFree (c : Contract) : Prop :=
  ∀ L L' a, (c.resolvedAddress L).isSome → c.resolvedAddress L' = some a →
    ¬a.literal.toList <:+: L.toList

-- Both conditions need only the locations of the pairs, the imports and the places in the code,
-- so they can be decided.
theorem quotedOnce_iff : c.QuotedOnce ↔ ∀ L ∈ c.firstOccurrencePairs.map Prod.fst,
    ∃ i ∈ c.imports, c.imports.filter (·.location == L) = [i] ∧
      Utf8.slice c.code.toList i.span.start.offset i.span.stop.offset = Splice.quoted L ∧
      ∀ k ≤ c.code.toList.length, Splice.quoted L <+: c.code.toList.drop k →
        Utf8.byteCount (c.code.toList.take k) = i.span.start.offset := by
  constructor
  · intro hq L hL
    obtain ⟨i, hfilter, hslice, hstart⟩ := hq L (resolvedAddress_isSome_iff.mpr hL)
    have hi : i ∈ c.imports := (List.mem_filter.mp (hfilter ▸ List.mem_singleton_self i)).1
    exact ⟨i, hi, hfilter, hslice, Splice.forall_occurrence_iff.mp hstart⟩
  · intro h L hL
    obtain ⟨i, -, hfilter, hslice, hstart⟩ := h L (resolvedAddress_isSome_iff.mp hL)
    exact ⟨i, hfilter, hslice, Splice.forall_occurrence_iff.mpr hstart⟩

instance : DecidablePred QuotedOnce := fun _ => decidable_of_iff _ quotedOnce_iff.symm

theorem addressFree_iff : c.AddressFree ↔ ∀ L ∈ c.firstOccurrencePairs.map Prod.fst,
    ∀ L' ∈ c.firstOccurrencePairs.map Prod.fst, ∀ a ∈ (c.resolvedAddress L').toList,
      ¬a.literal.toList <:+: L.toList := by
  constructor
  · intro hf L hL L' _ a ha
    exact hf L L' a (resolvedAddress_isSome_iff.mpr hL) (Option.mem_toList.mp ha)
  · intro h L L' a hL ha
    have hL' : (c.resolvedAddress L').isSome := by simp [ha]
    exact h L (resolvedAddress_isSome_iff.mp hL) L' (resolvedAddress_isSome_iff.mp hL') a
      (Option.mem_toList.mpr ha)

instance : DecidablePred AddressFree := fun _ => decidable_of_iff _ addressFree_iff.symm

theorem QuotedOnce.split (hq : c.QuotedOnce) (hL : (c.resolvedAddress L).isSome) :
    ∃ is₁ i is₂, c.imports = is₁ ++ i :: is₂ ∧ i.location = L ∧
      ∀ j ∈ is₁ ++ is₂, j.location ≠ L := by
  obtain ⟨i, hfilter, -, -⟩ := hq L hL
  obtain ⟨is₁, is₂, himp, h₁, hi, h₂⟩ := List.filter_eq_cons_iff.mp hfilter
  refine ⟨is₁, i, is₂, himp, by simpa using hi, fun j hj => ?_⟩
  rcases List.mem_append.mp hj with hj | hj
  · simpa using h₁ j hj
  · simpa using List.filter_eq_nil_iff.mp h₂ j hj

theorem QuotedOnce.literals (hq : c.QuotedOnce)
    (hlex : List.Forall₂ (fun i lex => Lexer.Quoted lex ∧
      lex = Utf8.slice c.code.toList i.span.start.offset i.span.stop.offset) c.imports lexes) :
    List.Forall₂ (fun i lex => (c.resolvedAddress i.location).isSome →
      lex = Splice.quoted i.location) c.imports lexes := by
  refine ((List.forall₂_and_left _ _).mpr ⟨fun j hj => hj, hlex⟩).imp ?_
  rintro j lex ⟨hj, -, hslice⟩ hres
  obtain ⟨i, hfilter, hquoted, -⟩ := hq j.location hres
  have hji : j ∈ c.imports.filter (·.location == j.location) := List.mem_filter.mpr ⟨hj, by simp⟩
  rw [hfilter, List.mem_singleton] at hji
  subst hji
  rw [hslice, hquoted]

theorem QuotedOnce.atMostOnce (hq : c.QuotedOnce) (hL : (c.resolvedAddress L).isSome) :
    Splice.AtMostOnce (Splice.quoted L) c.code.toList := by
  obtain ⟨i, -, -, hstart⟩ := hq L hL
  intro P Q P' Q' h h'
  have hsplit : P ++ (Splice.quoted L ++ Q) = P' ++ (Splice.quoted L ++ Q') := by
    simpa using h.symm.trans h'
  exact Utf8.eq_of_byteCount_eq hsplit ((hstart P Q h).trans (hstart P' Q' h').symm)

-- Where every location that resolves is imported once, by a literal that is the only quoted
-- occurrence of it in the code, and contains no address literal it resolves to, searching for the
-- first occurrences substitutes what the substitution at the import spans does, whatever entries
-- the contract records.
theorem deployedCode_firstOccurrence (h : make n loc s tgt acct args = .ok c) (hk : c.Keeps c')
    (hq : c'.QuotedOnce) (hf : c'.AddressFree) :
    c'.deployedCode .firstOccurrence = c'.deployedCode .importSpans := by
  obtain ⟨gaps, lexes, tail, hs, hlen, hlex, hspans⟩ := (hk.laid (laid_make h)).deployedCode_spans
  -- before the search: the code, in which each location that resolves occurs quoted at most once
  have hstart : Splice.Searched c'.resolvedAddress gaps c'.imports lexes tail [] c'.code.toList := by
    refine ⟨?_, by simp, fun L hL _ => hq.atMostOnce hL⟩
    rw [Splice.zipWith_piece_of_none (by simp [Splice.resolveOnly]) hlex.length_eq.symm, ← hs]
  have hend := hstart.foldl hlen (hq.literals hlex) (fun L hL => hq.split hL) hf
    (fun p hp => resolvedAddress_isSome_iff.mpr (List.mem_map_of_mem hp))
    (fun pre M a post hps _ hM => resolvedAddress_of_first hps hM)
  -- after it: every location that resolves has been taken
  have hall : Splice.resolveOnly ([] ++ c'.firstOccurrencePairs.map Prod.fst) c'.resolvedAddress =
      c'.resolvedAddress := by
    funext L
    by_cases hL : L ∈ c'.firstOccurrencePairs.map Prod.fst
    · simp [Splice.resolveOnly, hL]
    · have hnone : c'.resolvedAddress L = none :=
        Option.not_isSome_iff_eq_none.mp (mt resolvedAddress_isSome_iff.mp hL)
      simp [Splice.resolveOnly, hL, hnone]
  apply String.toList_inj.mp
  rw [deployedCode_firstOccurrence_toList, hend.text, hall, hspans]

-- A contract that imports `b.cdc`, resolved to a registered contract, `c.cdc`, resolved by an
-- alias, and `d.cdc`, unresolved and quoted again in a comment.
def pairedSource : String :=
  "import \"b.cdc\"\nimport C from \"c.cdc\"\n// \"d.cdc\" stays unresolved\nimport \"d.cdc\"\ncontract A \x7b\x7d"

def pairedProgram : Program :=
  ⟨[⟨.contract, false, "A", ⟨⟨5, 1, 80⟩, ⟨5, 11, 90⟩⟩⟩],
    [⟨[], .string "b.cdc", ⟨⟨1, 8, 7⟩, ⟨1, 15, 14⟩⟩⟩,
      ⟨["C"], .string "c.cdc", ⟨⟨2, 15, 29⟩, ⟨2, 22, 36⟩⟩⟩,
      ⟨[], .string "d.cdc", ⟨⟨4, 8, 72⟩, ⟨4, 15, 79⟩⟩⟩]⟩

def paired : Contract :=
  ⟨0, "A", "a.cdc", pairedSource, [], default, "", pairedProgram.pathImports, {}, {}⟩

def pairedResolved : Contract :=
  { paired with
    dependencies := Table.empty.insert "b.cdc" ⟨1, "B", ⟨1⟩⟩
    aliases := Table.empty.insert "c.cdc" ⟨2⟩ }

theorem parse_pairedSource : Program.parse pairedSource = .ok pairedProgram := by
  have h : (Program.parse pairedSource).toOption = some pairedProgram := by decide +kernel
  revert h
  cases Program.parse pairedSource <;> simp [Except.toOption]

theorem deployedCode_firstOccurrence_paired :
    make 0 "a.cdc" pairedSource default "" [] = .ok paired ∧ paired.Keeps pairedResolved ∧
      pairedResolved.QuotedOnce ∧ pairedResolved.AddressFree ∧
      pairedResolved.deployedCode .firstOccurrence = pairedResolved.deployedCode .importSpans :=
  have h : make 0 "a.cdc" pairedSource default "" [] = .ok paired :=
    make_of_eq_singleton parse_pairedSource rfl
  have hk : paired.Keeps pairedResolved := ⟨rfl, rfl, rfl, rfl, rfl, rfl, rfl, rfl⟩
  have hq : pairedResolved.QuotedOnce := by decide +kernel
  have hf : pairedResolved.AddressFree := by decide +kernel
  ⟨h, hk, hq, hf, deployedCode_firstOccurrence h hk hq hf⟩

-- Without the second condition the two differ. `B` is imported after a comment that opens a
-- quote; its address literal completes, with the text around it, the quoted form of the second
-- location, whose own literal comes later. The search replaces that text in the comment.
def straddledSource : String :=
  "/* \"u */ import \"B\" /* v\" */\nimport \"u */ import 0x0000000000000001 /* v\"\ncontract A \x7b\x7d"

def straddledProgram : Program :=
  ⟨[⟨.contract, false, "A", ⟨⟨3, 1, 74⟩, ⟨3, 11, 84⟩⟩⟩],
    [⟨[], .string "B", ⟨⟨1, 17, 16⟩, ⟨1, 20, 19⟩⟩⟩,
      ⟨[], .string "u */ import 0x0000000000000001 /* v", ⟨⟨2, 8, 36⟩, ⟨2, 45, 73⟩⟩⟩]⟩

def straddled : Contract :=
  ⟨0, "A", "a.cdc", straddledSource, [], default, "", straddledProgram.pathImports, {}, {}⟩

def straddledAliased : Contract :=
  { straddled with
    aliases := (Table.empty.insert "B" ⟨1⟩).insert "u */ import 0x0000000000000001 /* v" ⟨2⟩ }

theorem parse_straddledSource : Program.parse straddledSource = .ok straddledProgram := by
  have h : (Program.parse straddledSource).toOption = some straddledProgram := by decide +kernel
  revert h
  cases Program.parse straddledSource <;> simp [Except.toOption]

theorem firstOccurrence_straddles_address :
    make 0 "a.cdc" straddledSource default "" [] = .ok straddled ∧
      straddled.Keeps straddledAliased ∧ straddledAliased.QuotedOnce ∧
      ¬straddledAliased.AddressFree ∧
      straddledAliased.deployedCode .firstOccurrence ≠ straddledAliased.deployedCode .importSpans := by
  refine ⟨make_of_eq_singleton parse_straddledSource rfl, ⟨rfl, rfl, rfl, rfl, rfl, rfl, rfl, rfl⟩,
    by decide +kernel, by decide +kernel, fun heq => ?_⟩
  -- the imports come in order, so the substitution at the spans needs no sorting
  have hsorted : straddledAliased.imports.mergeSort
      (fun a b => decide (a.span.start.offset ≤ b.span.start.offset)) = straddledAliased.imports :=
    List.mergeSort_of_pairwise (by decide +kernel)
  have htext := congrArg String.toList heq
  rw [deployedCode_firstOccurrence_toList] at htext
  simp only [deployedCode, substituteSpans, hsorted, String.toList_ofList] at htext
  revert htext
  decide +kernel

end Contract

end ContractDeploy
