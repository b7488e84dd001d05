import ContractDeploy.Proofs.Source.Rescan
import ContractDeploy.Proofs.DeployedCode

namespace ContractDeploy

namespace Utf8

theorem byteCount_pos {cs : List Char} (h : cs ≠ []) : 0 < byteCount cs := by
  obtain ⟨c, cs, rfl⟩ := List.exists_cons_of_ne_nil h
  have := Char.utf8Size_pos c
  simp only [byteCount_cons]
  omega

theorem prefix_of_byteCount_le {A B X Y : List Char} (h : A ++ X = B ++ Y)
    (hb : byteCount A ≤ byteCount B) : ∃ C, B = A ++ C := by
  rcases List.append_eq_append_iff.mp h with ⟨C, hB, -⟩ | ⟨C, rfl, -⟩
  · exact ⟨C, hB⟩
  · -- `A` would run past `B` by `C`, which has no bytes
    have hC : C = [] := by
      by_contra hC
      have := byteCount_pos hC
      simp only [byteCount_append] at hb
      omega
    exact ⟨[], by simp [hC]⟩

theorem slice_zero (A B : List Char) : slice (A ++ B) 0 (byteCount A) = A := by
  simpa using slice_eq [] A B

theorem slice_to_end (A B : List Char) : slice (A ++ B) (byteCount A) (byteCount (A ++ B)) = B := by
  simpa using slice_eq A B []

-- Two ways to cut one text in three, read from one position, whose cuts fall at the same
-- offsets, are the same.
theorem split_eq {p : Position} {g lex r g' lex' r' : List Char} (h : g ++ lex ++ r = g' ++ lex' ++ r')
    (h₁ : (p.advanceAll g).offset = (p.advanceAll g').offset)
    (h₂ : ((p.advanceAll g).advanceAll lex).offset = ((p.advanceAll g').advanceAll lex').offset) :
    g = g' ∧ lex = lex' ∧ r = r' := by
  simp only [Position.offset_advanceAll] at h₁ h₂
  obtain rfl : g = g' := eq_of_byteCount_eq (by simpa using h) (by omega)
  have hrest : lex ++ r = lex' ++ r' := by simpa using h
  obtain rfl : lex = lex' := eq_of_byteCount_eq hrest (by omega)
  exact ⟨rfl, rfl, List.append_cancel_left hrest⟩

end Utf8

theorem forall₂_exists_of_mem {α β : Type} {R : α → β → Prop} {l₁ : List α} {l₂ : List β} {a : α}
    (h : List.Forall₂ R l₁ l₂) (ha : a ∈ l₁) : ∃ b ∈ l₂, R a b := by
  induction h with
  | nil => cases ha
  | cons hr _ ih =>
    rcases List.mem_cons.mp ha with rfl | ha
    · exact ⟨_, List.mem_cons_self, hr⟩
    · obtain ⟨b, hb, hr'⟩ := ih ha
      exact ⟨b, List.mem_cons_of_mem _ hb, hr'⟩

namespace Layout

variable {α : Type} {span : α → Span} {P : α → List Char → Prop} {p : Position} {cs : List Char}
  {xs : List α}

theorem start_lt (h : Layout span P p cs xs) (hne : ∀ x lex, P x lex → lex ≠ []) :
    xs.Pairwise fun a b => (span a).start.offset < (span b).start.offset := by
  induction h with
  | nil => exact .nil
  | @cons p cs gap lex rest x xs he hst hsp hp hl ih =>
    refine List.Pairwise.cons (fun y hy => ?_) ih
    have hxs : (span x).start.offset < (span x).stop.offset := by
      rw [hsp, Position.offset_advanceAll]
      have := Utf8.byteCount_pos (hne x lex hp)
      omega
    exact Nat.lt_of_lt_of_le hxs (hl.le_start y hy)

end Layout

theorem find?_span {xs : List SourceImport} {x : SourceImport}
    (hpw : xs.Pairwise fun a b => a.span.start.offset < b.span.start.offset) (hx : x ∈ xs) :
    xs.find? (·.span == x.span) = some x := by
  induction xs with
  | nil => cases hx
  | cons y ys ih =>
    obtain ⟨hy, hys⟩ := List.pairwise_cons.mp hpw
    rcases List.mem_cons.mp hx with rfl | hx
    · simp
    · have hne : y.span ≠ x.span := fun heq => by
        have := hy x hx
        rw [heq] at this
        omega
      rw [List.find?_cons_of_neg (by simpa using hne), ih hys hx]

namespace Splice

variable {resolve : String → Option Address} {p p' : Position} {cs cs' m ds : List Char}
  {is : List SourceImport}

theorem Spliced.advance (h : Spliced resolve p cs is ds) (hcs : cs = m ++ cs')
    (hp : p' = p.advanceAll m) (hle : ∀ x ∈ is, p'.offset ≤ x.span.start.offset) :
    ∃ ds', ds = m ++ ds' ∧ Spliced resolve p' cs' is ds' := by
  cases h with
  | nil => exact ⟨cs', by rw [hcs], .nil⟩
  | @cons _ _ gap lex rest ds x xs he hst hsp hq hs =>
    -- the gap before the first import holds `m`
    have hb : Utf8.byteCount m ≤ Utf8.byteCount gap := by
      have := hle x List.mem_cons_self
      rw [hst, hp, Position.offset_advanceAll, Position.offset_advanceAll] at this
      omega
    obtain ⟨gap', rfl⟩ := Utf8.prefix_of_byteCount_le (by rw [← hcs, he, List.append_assoc]) hb
    have hcs' : cs' = gap' ++ lex ++ rest := by
      rw [hcs, List.append_assoc, List.append_assoc] at he
      simpa using he
    refine ⟨gap' ++ piece resolve x lex ++ ds, by simp, .cons hcs' ?_ hsp hq hs⟩
    rw [hst, hp, Position.advanceAll_append]

end Splice

namespace Lexer

variable {c c₁ c' : Cursor} {t : Token} {ts : List Token} {lex : List Char}

theorem nextToken_keyword_word {k : Keyword} (h : nextToken c = .ok (t, c')) (hk : t.kind = .keyword k)
    (hs : skipTrivia c = .ok c₁) (hlex : c₁.Passes lex c') :
    lex ≠ [] ∧ ∀ ch ∈ lex, isWordChar ch = true := by
  obtain ⟨c₂, hs₂, he | ⟨ch, rest, hrest, hstr | ⟨-, k', n, hn, htake, hcases⟩⟩⟩ := nextToken_eq_ok h
  · rw [he.2.1] at hk
    cases hk
  · obtain ⟨-, v, -, rfl⟩ := hstr
    cases hk
  · obtain rfl : c₁ = c₂ := Except.ok.inj (hs.symm.trans hs₂)
    obtain ⟨hp, -, hkind⟩ := take_passes htake
    have hw : lex = c₁.rest.take n := List.append_cancel_right (hlex.rest.symm.trans hp.rest)
    rcases hcases with ⟨-, -, rfl⟩ | ⟨-, -, rfl, -⟩ | ⟨-, -, -, -, rfl⟩
    · rw [hkind] at hk
      cases hk
    · -- a word: the run of word characters from where it starts
      rw [hw, hrest, take_length_takeWhile]
      exact ⟨List.ne_nil_of_length_pos hn, fun ch' hch => List.mem_takeWhile_imp hch⟩
    · rw [hkind] at hk
      cases hk

theorem Lexes.le_start (h : Lexes c ts) : ∀ u ∈ ts, c.pos.offset ≤ u.span.start.offset := by
  induction h with
  | eof hn _ =>
    intro u hu
    rw [List.mem_singleton] at hu
    subst hu
    obtain ⟨c₁, g, lex, -, hg, -, hspan, -⟩ := nextToken_passes hn
    rw [hspan, hg.pos, Position.offset_advanceAll]
    omega
  | @cons c c' t ts hn _ _ ih =>
    obtain ⟨c₁, g, lex, -, hg, hlex, hspan, -⟩ := nextToken_passes hn
    have h₁ : c.pos.offset ≤ c₁.pos.offset := by
      rw [hg.pos, Position.offset_advanceAll]
      omega
    have h₂ : c₁.pos.offset ≤ c'.pos.offset := by
      rw [hlex.pos, Position.offset_advanceAll]
      omega
    intro u hu
    rcases List.mem_cons.mp hu with rfl | hu
    · rw [hspan]
      exact h₁
    · exact Nat.le_trans (Nat.le_trans h₁ h₂) (ih u hu)

theorem Lexes.eq_append (h : Lexes c ts) : ∃ ts' e, ts = ts' ++ [e] ∧ e.kind = .eof := by
  induction h with
  | eof _ hk => exact ⟨[], _, rfl, hk⟩
  | cons _ _ _ ih =>
    obtain ⟨ts', e, rfl, he⟩ := ih
    exact ⟨_ :: ts', e, rfl, he⟩

theorem Lexes.le_keyed {is : List SourceImport} {pairs : List (Token × Token)} {l : List Token}
    (h : Lexes c ts) (hpairs : List.Forall₂ (fun j kt => Scan.KeyedAt j.span kt) is pairs)
    (hsub : pairs.Sublist (l.zip ts)) : ∀ j ∈ is, c.pos.offset ≤ j.span.start.offset := by
  intro j hj
  obtain ⟨kt, hkt, hkey, -⟩ := forall₂_exists_of_mem hpairs hj
  rw [← hkey]
  exact h.le_start _ (List.of_mem_zip (hsub.subset hkt)).2

section Reading

variable {code : List Char} {I : List SourceImport} {resolve : String → Option Address}
  {σ : Span → Option String}

-- What reading a code again asks of the literals `σ` writes in place of the quoted paths of the
-- imports `I`: each is written at an import that resolves, as its address, and stands apart
-- from the text around it.
structure Marks (code : List Char) (I : List SourceImport) (resolve : String → Option Address)
    (σ : Span → Option String) : Prop where
  at_import : ∀ sp lit, σ sp = some lit → ∃ j ∈ I, j.span = sp
  of_import : ∀ j ∈ I, σ j.span = (resolve j.location).map Address.literal
  before : ∀ j ∈ I, (resolve j.location).isSome →
    ∀ ch ∈ (Utf8.slice code 0 j.span.start.offset).getLast?, isWordChar ch = false
  after : ∀ j ∈ I, (resolve j.location).isSome →
    ∀ ch ∈ (Utf8.slice code j.span.stop.offset (Utf8.byteCount code)).head?,
      (ch.isAlphanum || ch == '_') = false

-- Every import of `I` is still ahead, in `is`, or ends by the offset `q`.
def Behind (I is : List SourceImport) (q : Nat) : Prop := ∀ j ∈ I, j ∈ is ∨ j.span.stop.offset ≤ q

theorem Behind.mono {is : List SourceImport} {q q' : Nat} (h : Behind I is q) (hq : q ≤ q') :
    Behind I is q' :=
  fun j hj => (h j hj).imp_right fun hle => Nat.le_trans hle hq

theorem Behind.pass {j : SourceImport} {is : List SourceImport} {q q' : Nat} (h : Behind I (j :: is) q)
    (hj : j.span.stop.offset ≤ q') (hq : q ≤ q') : Behind I is q' := by
  intro x hx
  rcases h x hx with hx | hx
  · rcases List.mem_cons.mp hx with rfl | hx
    · exact .inr hj
    · exact .inl hx
  · exact .inr (Nat.le_trans hx hq)

-- No literal is written at a span that takes some text after the imports behind and before the
-- imports ahead.
theorem Marks.eq_none (hM : Marks code I resolve σ) {is : List SourceImport} {sp : Span} {q : Nat}
    (hsp : sp.start.offset < sp.stop.offset) (hq : q ≤ sp.start.offset) (hb : Behind I is q)
    (hahead : ∀ j ∈ is, sp.stop.offset ≤ j.span.start.offset) : σ sp = none := by
  cases hσ : σ sp with
  | none => rfl
  | some lit =>
    obtain ⟨j, hj, rfl⟩ := hM.at_import _ _ hσ
    rcases hb j hj with hj | hj
    · have := hahead j hj
      omega
    · omega

theorem Marks.before_split (hM : Marks code I resolve σ) {j : SourceImport} {P R : List Char}
    (hj : j ∈ I) (hres : (resolve j.location).isSome) (hcode : code = P ++ R)
    (hstart : j.span.start.offset = Utf8.byteCount P) : ∀ ch ∈ P.getLast?, isWordChar ch = false := by
  have := hM.before j hj hres
  rwa [hstart, hcode, Utf8.slice_zero] at this

theorem Marks.after_split (hM : Marks code I resolve σ) {j : SourceImport} {P R : List Char}
    (hj : j ∈ I) (hres : (resolve j.location).isSome) (hcode : code = P ++ R)
    (hstop : j.span.stop.offset = Utf8.byteCount P) :
    ∀ ch ∈ R.head?, (ch.isAlphanum || ch == '_') = false := by
  have := hM.after j hj hres
  rwa [hstop, hcode, Utf8.slice_to_end] at this

-- Reading the code with the literals spliced in, token after token. The invariant: `P` is the
-- code passed, ending in the text of `pv`, the token before; `is` are the imports still ahead,
-- spliced into `ds` and read at the pairs of tokens `pairs` still ahead, each right after a
-- keyword; every other import lies behind.
theorem Lexes.relabels (hM : Marks code I resolve σ) (h : Lexes c ts) {P : List Char} {pv : Token}
    {is : List SourceImport} {ds : List Char} {pairs : List (Token × Token)}
    (hP : code = P ++ c.rest) (hpos : c.pos.offset = Utf8.byteCount P)
    (hS : Splice.Spliced resolve c.pos c.rest is ds) (hI : ∀ j ∈ is, j ∈ I)
    (hb : Behind I is c.pos.offset)
    (hpairs : List.Forall₂ (fun j kt => Scan.KeyedAt j.span kt) is pairs)
    (hsub : pairs.Sublist ((pv :: ts).zip ts))
    (hpv : (∃ k, pv.kind = .keyword k) → ∃ ch ∈ P.getLast?, isWordChar ch = true) :
    Relabels σ c ds ts := by
  induction h generalizing P pv is ds pairs with
  | @eof c c' t hn hk =>
    -- no import is left: its token would be the end
    cases hpairs with
    | nil =>
      cases hS
      exact .eof hn hk
    | @cons j kt _ _ hkey _ =>
      have hkt : kt = (pv, t) := by simpa using hsub.subset List.mem_cons_self
      obtain ⟨-, ⟨path, hpath⟩, -⟩ := hkey
      rw [hkt] at hpath
      rw [hk] at hpath
      cases hpath
  | @cons c c' t ts hn hk hl ih =>
    obtain ⟨c₁, g, lex, hs, hg, hlex, hspan, hspells⟩ := nextToken_passes hn
    have hrest : c.rest = (g ++ lex) ++ c'.rest := by rw [hg.rest, hlex.rest, List.append_assoc]
    have hc' : c'.pos = c.pos.advanceAll (g ++ lex) := by
      rw [hlex.pos, hg.pos, Position.advanceAll_append]
    have hpos' : c'.pos.offset = Utf8.byteCount (P ++ g ++ lex) := by
      rw [hc', Position.offset_advanceAll, hpos]
      simp
    have hP' : code = (P ++ g ++ lex) ++ c'.rest := by
      rw [hP, hrest]
      simp
    have hoff₁ : c₁.pos.offset = c.pos.offset + Utf8.byteCount g := by
      rw [hg.pos, Position.offset_advanceAll]
    have hoff₂ : c'.pos.offset = c₁.pos.offset + Utf8.byteCount lex := by
      rw [hlex.pos, Position.offset_advanceAll]
    rw [List.zip_cons_cons] at hsub
    rcases List.sublist_cons_iff.mp hsub with hsub' | ⟨pairs', rfl, hsub'⟩
    · -- no import is read at this token: it is read as it stands, before the next import
      have hahead := hl.le_keyed hpairs hsub'
      obtain ⟨ds₀, rfl, hS'⟩ := hS.advance hrest hc' hahead
      have hpv' : (∃ k, t.kind = .keyword k) → ∃ ch ∈ (P ++ g ++ lex).getLast?, isWordChar ch = true := by
        rintro ⟨k, htk⟩
        obtain ⟨hne, hw⟩ := nextToken_keyword_word hn htk hs hlex
        refine ⟨lex.getLast hne, ?_, hw _ (List.getLast_mem hne)⟩
        simp [List.getLast?_eq_some_getLast hne]
      refine .keep hn hk (fun v hv => ?_) hrest
        (ih hP' hpos' hS' hI (hb.mono (by omega)) hpairs hsub' hpv')
      -- and no literal is written at it, a string taking some text
      have hne : lex ≠ [] := by
        obtain ⟨body, rfl⟩ := hspells v hv
        exact List.cons_ne_nil _ _
      have := Utf8.byteCount_pos hne
      rw [hspan]
      exact hM.eq_none (by dsimp only; omega) (by dsimp only; omega) hb hahead
    · -- the first import ahead is read at this token
      cases hpairs with
      | @cons j _ is' _ hkey hpairs' =>
      obtain ⟨hjsp, ⟨path, htpath⟩, hpvk⟩ := hkey
      cases hS with
      | @cons _ _ gap lexj rest ds₀ _ _ he hst hsp hq hS₀ =>
      have hjI : j ∈ I := hI j List.mem_cons_self
      have hjstart : j.span.start = c₁.pos := by rw [← hjsp, hspan]
      have hjstop : j.span.stop = c'.pos := by rw [← hjsp, hspan]
      -- the import's literal is the token's text, after the same gap
      obtain ⟨rfl, rfl, rfl⟩ := Utf8.split_eq (p := c.pos) (hrest.symm.trans he)
        (by rw [← hg.pos, ← hst, hjstart]) (by rw [← hg.pos, ← hlex.pos, ← hst, ← hsp, hjstop])
      rw [hjstop] at hS₀
      have hrec := ih hP' hpos' hS₀ (fun x hx => hI x (List.mem_cons_of_mem _ hx))
        (hb.pass (by rw [hjstop]) (by omega)) hpairs' hsub' fun ⟨k, htk⟩ => by rw [htpath] at htk; cases htk
      cases hres : resolve j.location with
      | none =>
        have hσt : σ t.span = none := by rw [hjsp, hM.of_import j hjI, hres]; rfl
        have := Relabels.keep hn hk (fun _ _ => hσt) hrest hrec
        simpa [Splice.piece, hres] using this
      | some a =>
        have hσt : σ t.span = some a.literal := by rw [hjsp, hM.of_import j hjI, hres]; rfl
        have hsome : (resolve j.location).isSome := by rw [hres]; rfl
        -- blanks or a comment stand between the keyword before and the literal
        have hgne : g ≠ [] := by
          rintro rfl
          obtain ⟨ch, hch, hword⟩ := hpv hpvk
          have hstart : j.span.start.offset = Utf8.byteCount P := by rw [hjstart, hoff₁, hpos]; simp
          rw [hM.before_split hjI hsome hP hstart ch hch] at hword
          cases hword
        -- what follows the literal is what follows it in the source
        have hafter : ∀ y, ds₀.head? = some y → (y.isAlphanum || y == '_') = false := by
          intro y hy
          refine hM.after_split hjI hsome hP' (by rw [hjstop, hpos']) y ?_
          rw [hrec.agree.1]
          exact hy
        have := Relabels.swap hn htpath hσt hs hg.rest hgne hafter hrec
        simpa [Splice.piece, hres] using this

end Reading

end Lexer

namespace Cursor

theorem ofSource_of_head {s : String} (h : s.toList.head? ≠ some byteOrderMark) :
    ofSource s = ⟨.start, s.toList⟩ := by
  unfold ofSource
  split
  case h_1 ch rest hs =>
    have hb : ch ≠ byteOrderMark := fun hb => h (by rw [hs, hb]; rfl)
    rw [if_neg hb, hs]
  case h_2 hs => rw [hs]

theorem ofSource_of_bom {s : String} {cs : List Char} (h : s.toList = byteOrderMark :: cs) :
    ofSource s = ⟨Position.start.advance byteOrderMark, cs⟩ := by
  unfold ofSource
  rw [h]
  rfl

theorem ofSource_cases (s : String) :
    (ofSource s = ⟨.start, s.toList⟩ ∧ s.toList.head? ≠ some byteOrderMark) ∨
      ∃ rest, s.toList = byteOrderMark :: rest ∧
        ofSource s = ⟨Position.start.advance byteOrderMark, rest⟩ := by
  cases hs : s.toList with
  | nil => exact .inl ⟨by rw [ofSource_of_head (by simp [hs]), hs], by simp⟩
  | cons ch rest =>
    by_cases hb : ch = byteOrderMark
    · subst hb
      exact .inr ⟨rest, rfl, ofSource_of_bom hs⟩
    · exact .inl ⟨by rw [ofSource_of_head (by simp [hs, hb]), hs], by simp [hb]⟩

end Cursor

namespace ImportLocation

-- The location read in place of a quoted path that resolves: the address literal written there.
def substitute (resolve : String → Option Address) : ImportLocation → ImportLocation
  | .string p => ((resolve p).map fun a => .address a.literal).getD (.string p)
  | loc => loc

end ImportLocation

theorem forall₂_concat_left {α β : Type} {R : α → β → Prop} {l : List α} {a : α} {m : List β}
    (h : List.Forall₂ R (l ++ [a]) m) : ∃ m' b, m = m' ++ [b] ∧ List.Forall₂ R l m' ∧ R a b := by
  induction l generalizing m with
  | nil =>
    cases h with
    | cons hr hnil =>
      cases hnil
      exact ⟨[], _, rfl, .nil, hr⟩
  | cons x l ih =>
    cases h with
    | cons hr h' =>
      obtain ⟨m', b, rfl, hl, hab⟩ := ih h'
      exact ⟨_ :: m', b, rfl, .cons hr hl, hab⟩

namespace Contract

variable {c c' : Contract} {n : Nat} {loc s acct : String} {tgt : Address} {args : List Json}
  {i : SourceImport} {sp : Span} {lit : String}

-- The literal of each import that resolves stands apart from the code around it: no word
-- character right before it, and no letter, digit or underscore right after it.
def Separated (c : Contract) : Prop :=
  ∀ i ∈ c.imports, (c.resolvedAddress i.location).isSome →
    (∀ ch ∈ (Utf8.slice c.code.toList 0 i.span.start.offset).getLast?, Lexer.isWordChar ch = false) ∧
    ∀ ch ∈ (Utf8.slice c.code.toList i.span.stop.offset (Utf8.byteCount c.code.toList)).head?,
      (ch.isAlphanum || ch == '_') = false

-- Built from the instances of the core library, so that it evaluates the same wherever it is used.
instance : DecidablePred Separated := fun c => by
  unfold Separated
  refine @List.decidableBAll _ _ (fun i => ?_) _
  refine @forall_prop_decidable _ _ _ fun _ => ?_
  exact @instDecidableAnd _ _ (Option.decidableForallMem _) (Option.decidableForallMem _)

-- The literal the code deployed holds at a span: the address of the import there, if it resolves.
def literalAt (c : Contract) (sp : Span) : Option String :=
  (c.imports.find? (·.span == sp)).bind fun i => (c.resolvedAddress i.location).map Address.literal

theorem literalAt_of_mem (hl : c.Laid) (hi : i ∈ c.imports) :
    c.literalAt i.span = (c.resolvedAddress i.location).map Address.literal := by
  have hpw := Layout.start_lt hl fun _ lex ⟨body, h⟩ => h ▸ List.cons_ne_nil _ _
  simp [literalAt, find?_span hpw hi]

theorem literalAt_eq_some (h : c.literalAt sp = some lit) :
    ∃ i ∈ c.imports, i.span = sp ∧ ∃ a, c.resolvedAddress i.location = some a ∧ lit = a.literal := by
  unfold literalAt at h
  cases hf : c.imports.find? (·.span == sp) with
  | none => simp [hf] at h
  | some i =>
    simp only [hf, Option.bind_some, Option.map_eq_some_iff] at h
    obtain ⟨a, ha, rfl⟩ := h
    exact ⟨i, List.mem_of_find?_eq_some hf, by simpa using List.find?_some hf, a, ha, rfl⟩

theorem literalAt_hex (h : c.literalAt sp = some lit) : Lexer.HexLiteral lit.toList := by
  obtain ⟨-, -, -, a, -, rfl⟩ := literalAt_eq_some h
  obtain ⟨ds, hds, -, hdig⟩ := Address.literal_toList a
  have hall : ∀ d ∈ "0123456789abcdef".toList, d.isAlphanum = true := by
    refine @of_decide_eq_true _ (List.decidableBAll _ _) ?_
    rfl
  exact ⟨ds, hds, fun d hd => hall d (hdig d hd)⟩

theorem Separated.marks (hl : c.Laid) (hsep : c.Separated) :
    Lexer.Marks c.code.toList c.imports c.resolvedAddress c.literalAt where
  at_import _ _ h := by
    obtain ⟨i, hi, hsp, -⟩ := literalAt_eq_some h
    exact ⟨i, hi, hsp⟩
  of_import _ hj := literalAt_of_mem hl hj
  before j hj hres := (hsep j hj hres).1
  after j hj hres := (hsep j hj hres).2

theorem relabel_literalAt {p : Program} {imp : Import} (hl : c.Laid) (himp : c.imports = p.pathImports)
    (hi : imp ∈ p.imports) :
    imp.location.relabel (c.literalAt imp.span) = imp.location.substitute c.resolvedAddress := by
  cases hloc : imp.location with
  | string L =>
    have hmem : (⟨L, imp.span⟩ : SourceImport) ∈ c.imports := by
      rw [himp]
      exact List.mem_filterMap.mpr ⟨imp, hi, by simp [hloc, ImportLocation.path?]⟩
    rw [literalAt_of_mem hl hmem]
    cases hr : c.resolvedAddress L <;> simp [ImportLocation.relabel, ImportLocation.substitute, hr]
  | address _ => rfl
  | identifier _ => rfl

theorem relabels_deployedCode (h : make n loc s tgt acct args = .ok c) (hk : c.Keeps c')
    (hsep : c'.Separated) (hts : Lexer.tokenize s = .ok ts) :
    ∃ ds, Lexer.Relabels c'.literalAt (Cursor.ofSource s) ds ts ∧
      Cursor.ofSource (c'.deployedCode .importSpans) = ⟨(Cursor.ofSource s).pos, ds⟩ := by
  obtain ⟨p, hp, -, rfl⟩ := make_eq_ok h
  have hcode : c'.code = s := hk.code
  have hl : c'.Laid := hk.laid (laid_make h)
  have hM := hsep.marks hl
  unfold Laid at hl
  rw [hcode] at hM hl
  have hS := substituteSpans_spliced hl c'.resolvedAddress
  have hnew : (c'.deployedCode .importSpans).toList =
      (substituteSpans s c'.imports c'.resolvedAddress).toList := by
    rw [deployedCode, hcode]
  rw [← hnew] at hS
  have hlex := Lexer.tokenize_eq_ok_iff.mp hts
  obtain ⟨pairs, hpairs, hsub⟩ := Program.parse_keyed hp hts
  rw [show p.pathImports = c'.imports from hk.imports.symm] at hpairs
  have hsub' := hsub.trans (Scan.zip_tail_sublist_cons ⟨.eof, "", default⟩ ts)
  rcases Cursor.ofSource_cases s with ⟨hc, hbom⟩ | ⟨rest, hs, hc⟩
  · -- no byte order mark: both are read from their first character
    rw [hc] at hlex ⊢
    have hrel := Lexer.Lexes.relabels hM hlex (P := []) rfl rfl hS (fun _ h => h)
      (fun j hj => .inl hj) hpairs hsub' fun h => by obtain ⟨_, hk⟩ := h; cases hk
    exact ⟨_, hrel, Cursor.ofSource_of_head (by rw [← hrel.agree.1]; exact hbom)⟩
  · -- a byte order mark: both are read past it
    rw [hc] at hlex ⊢
    obtain ⟨ds, hds, hS'⟩ := hS.advance (m := [Cursor.byteOrderMark]) hs rfl
      (hlex.le_keyed hpairs hsub')
    have hrel := Lexer.Lexes.relabels hM hlex (P := [Cursor.byteOrderMark]) (by rw [hs]; rfl)
      (by simp [Position.start]) hS' (fun _ h => h) (fun j hj => .inl hj) hpairs hsub'
      fun h => by obtain ⟨_, hk⟩ := h; cases hk
    exact ⟨_, hrel, Cursor.ofSource_of_bom hds⟩

-- Parsing commutes with substituting addresses at the import spans, up to spans: where each
-- literal substituted stands apart from the code around it, the code deployed parses to the
-- declarations of the source and to its imports, in order, each quoted path that resolves now
-- imported from its address literal.
theorem parse_deployedCode (h : make n loc s tgt acct args = .ok c) (hk : c.Keeps c')
    (hsep : c'.Separated) :
    ∃ p q, Program.parse s = .ok p ∧ Program.parse (c'.deployedCode .importSpans) = .ok q ∧
      List.Forall₂ Declaration.SameName p.declarations q.declarations ∧
      List.Forall₂ (fun i j => j.names = i.names ∧ j.location = i.location.substitute c'.resolvedAddress)
        p.imports q.imports := by
  obtain ⟨p, hp, -, hc⟩ := make_eq_ok h
  obtain ⟨ts, hts, hofT⟩ : ∃ ts, Lexer.tokenize s = .ok ts ∧ Program.ofTokens ts = .ok p := by
    cases ht : Lexer.tokenize s with
    | error e => simp [Program.parse, ht, bind, Except.bind] at hp
    | ok ts => exact ⟨ts, rfl, by simpa [Program.parse, ht, bind, Except.bind] using hp⟩
  -- the code deployed is read as the relabelled tokens of the source
  obtain ⟨ds, hrel, hcur⟩ := relabels_deployedCode h hk hsep hts
  obtain ⟨us, hlex, hus⟩ := hrel.lexes (fun _ _ => literalAt_hex) (Cursor.ofSource s).pos
  rw [← hcur, ← Lexer.tokenize_eq_ok_iff] at hlex
  obtain ⟨ts', e, rfl, -⟩ := (Lexer.tokenize_eq_ok_iff.mp hts).eq_append
  obtain ⟨us', e', rfl, hus', he⟩ := forall₂_concat_left hus
  -- and scanned, they give the same declarations and the relabelled imports
  obtain ⟨q, hq, hdecl, himp⟩ := Program.ofTokens_relabel (fun _ _ => literalAt_hex) hus' he hofT
  refine ⟨p, q, hp, by simp [Program.parse, hlex, bind, Except.bind, hq], hdecl, ?_⟩
  have hl : c'.Laid := hk.laid (laid_make h)
  have himports : c'.imports = p.pathImports := by rw [hk.imports, hc]; rfl
  refine ((List.forall₂_and_left _ _).mpr ⟨fun i hi => hi, himp⟩).imp fun i j hij => ⟨hij.2.1, ?_⟩
  rw [hij.2.2]
  exact relabel_literalAt hl himports hij.1

theorem parse_deployedCode_aliased :
    make 0 "a.cdc" importingSource default "" [] = .ok importing ∧ importing.Keeps importingAliased ∧
      importingAliased.Separated ∧
      ∃ p q, Program.parse importingSource = .ok p ∧
        Program.parse (importingAliased.deployedCode .importSpans) = .ok q ∧
        List.Forall₂ Declaration.SameName p.declarations q.declarations ∧
        List.Forall₂ (fun i j => j.names = i.names ∧
          j.location = i.location.substitute importingAliased.resolvedAddress) p.imports q.imports :=
  have h : make 0 "a.cdc" importingSource default "" [] = .ok importing :=
    make_of_eq_singleton parse_importingSource rfl
  have hk : importing.Keeps importingAliased := ⟨rfl, rfl, rfl, rfl, rfl, rfl, rfl, rfl⟩
  have hsep : importingAliased.Separated := by decide +kernel
  ⟨h, hk, hsep, parse_deployedCode h hk hsep⟩

-- `B` is imported with its literal right after `import`, which an alias resolves.
def gluedSource : String := "import\"B\"\ncontract C \x7b\x7d"

def gluedProgram : Program :=
  ⟨[⟨.contract, false, "C", ⟨⟨2, 1, 10⟩, ⟨2, 11, 20⟩⟩⟩], [⟨[], .string "B", ⟨⟨1, 7, 6⟩, ⟨1, 10, 9⟩⟩⟩]⟩

def glued : Contract :=
  ⟨0, "C", "a.cdc", gluedSource, [], default, "", gluedProgram.pathImports, {}, {}⟩

def gluedAliased : Contract := { glued with aliases := Table.empty.insert "B" ⟨1⟩ }

theorem parse_gluedSource : Program.parse gluedSource = .ok gluedProgram := by
  have h : (Program.parse gluedSource).toOption = some gluedProgram := by decide +kernel
  revert h
  cases Program.parse gluedSource <;> simp [Except.toOption]

-- The code deployed: the keyword and the address literal run together into one name.
theorem deployedCode_gluedAliased :
    gluedAliased.deployedCode .importSpans = "import0x0000000000000001\ncontract C \x7b\x7d" := by
  have hsorted : gluedAliased.imports.mergeSort
      (fun a b => decide (a.span.start.offset ≤ b.span.start.offset)) = gluedAliased.imports :=
    List.mergeSort_of_pairwise (by decide +kernel)
  apply String.toList_inj.mp
  simp only [deployedCode, substituteSpans, hsorted, String.toList_ofList]
  decide +kernel

theorem parse_deployedCode_gluedAliased :
    Program.parse (gluedAliased.deployedCode .importSpans) =
      .ok ⟨[⟨.contract, false, "C", ⟨⟨2, 1, 25⟩, ⟨2, 11, 35⟩⟩⟩], []⟩ := by
  rw [deployedCode_gluedAliased]
  have h : (Program.parse "import0x0000000000000001\ncontract C \x7b\x7d").toOption =
      some ⟨[⟨.contract, false, "C", ⟨⟨2, 1, 25⟩, ⟨2, 11, 35⟩⟩⟩], []⟩ := by decide +kernel
  revert h
  cases Program.parse "import0x0000000000000001\ncontract C \x7b\x7d" <;> simp [Except.toOption]

-- Without blanks or a comment between `import` and the literal, the code deployed still parses,
-- but to no import at all: the theorem above needs the literals to stand apart.
theorem parse_deployedCode_glued :
    make 0 "a.cdc" gluedSource default "" [] = .ok glued ∧ glued.Keeps gluedAliased ∧
      ¬gluedAliased.Separated ∧
      ¬∃ p q, Program.parse gluedSource = .ok p ∧
        Program.parse (gluedAliased.deployedCode .importSpans) = .ok q ∧
        List.Forall₂ (fun i j => j.names = i.names ∧
          j.location = i.location.substitute gluedAliased.resolvedAddress) p.imports q.imports := by
  refine ⟨make_of_eq_singleton parse_gluedSource rfl, ⟨rfl, rfl, rfl, rfl, rfl, rfl, rfl, rfl⟩,
    by decide +kernel, ?_⟩
  rintro ⟨p, q, hp, hq, himp⟩
  rw [parse_gluedSource, Except.ok.injEq] at hp
  rw [parse_deployedCode_gluedAliased, Except.ok.injEq] at hq
  subst hp hq
  -- the source imports `B`, the code deployed imports nothing
  cases himp

end Contract

end ContractDeploy
