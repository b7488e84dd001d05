import ContractDeploy.Proofs.Source.Scan

namespace ContractDeploy

def bracketPairs : List (Char × Char) := [('\x7b', '\x7d'), ('(', ')'), ('[', ']')]

-- A sequence of brackets in which each closing one closes the innermost open one, and none is
-- left open.
inductive Balanced : List Char → Prop
  | nil : Balanced []
  | wrap {o c : Char} {b : List Char} : (o, c) ∈ bracketPairs → Balanced b →
      Balanced (o :: (b ++ [c]))
  | append {a b : List Char} : Balanced a → Balanced b → Balanced (a ++ b)

-- `b` closes properly but for the brackets `os`, still open, innermost first.
inductive Nested : List Char → List Char → Prop
  | balanced {b : List Char} : Balanced b → Nested b []
  | opened {a b os : List Char} {o c : Char} : Nested a os → (o, c) ∈ bracketPairs → Balanced b →
      Nested (a ++ o :: b) (o :: os)

namespace Nested

variable {a b os : List Char} {o c : Char}

theorem append_balanced (h : Nested a os) (hw : Balanced w) : Nested (a ++ w) os := by
  cases h with
  | balanced hb => exact .balanced (.append hb hw)
  | opened h hp hb =>
    rw [List.append_assoc, List.cons_append]
    exact .opened h hp (.append hb hw)

theorem push (h : Nested b os) (hp : (o, c) ∈ bracketPairs) : Nested (b ++ [o]) (o :: os) :=
  .opened h hp .nil

theorem pop (h : Nested b (o :: os)) (hp : (o, c) ∈ bracketPairs) : Nested (b ++ [c]) os := by
  cases h with
  | opened h _ hb =>
    rw [List.append_assoc, List.cons_append]
    exact h.append_balanced (.wrap hp hb)

end Nested

-- Each pair opens with a bracket that closes none.
def isOpening (c : Char) : Bool := (bracketPairs.map Prod.fst).contains c

def isClosing (c : Char) : Bool := (bracketPairs.map Prod.snd).contains c

theorem Balanced.count (h : Balanced b) : b.countP isOpening = b.countP isClosing := by
  induction h with
  | nil => rfl
  | wrap hp _ ih =>
    simp only [bracketPairs, List.mem_cons, Prod.mk.injEq, List.not_mem_nil, or_false] at hp
    rcases hp with ⟨rfl, rfl⟩ | ⟨rfl, rfl⟩ | ⟨rfl, rfl⟩ <;>
      simp [List.countP_append, isOpening, isClosing, bracketPairs, ih]
  | append _ _ iha ihb => simp [List.countP_append, iha, ihb]

theorem Nested.count (h : Nested b os) : b.countP isOpening = b.countP isClosing + os.length := by
  induction h with
  | balanced hb => simpa using hb.count
  | opened _ hp hb ih =>
    simp only [bracketPairs, List.mem_cons, Prod.mk.injEq, List.not_mem_nil, or_false] at hp
    rcases hp with ⟨rfl, rfl⟩ | ⟨rfl, rfl⟩ | ⟨rfl, rfl⟩ <;>
      simp [List.countP_append, isOpening, isClosing, bracketPairs, ih, hb.count] <;> omega

theorem Nested.balanced_iff (h : Nested b os) : Balanced b ↔ os = [] := by
  constructor
  · intro hb
    have := h.count
    rw [hb.count] at this
    exact List.eq_nil_of_length_eq_zero (by omega)
  · rintro rfl
    cases h with
    | balanced hb => exact hb

namespace Token

def bracket? (t : Token) : Option Char :=
  match t.kind with
  | .symbol c => if isOpening c || isClosing c then some c else none
  | _ => none

end Token

def brackets (ts : List Token) : List Char := ts.filterMap Token.bracket?

@[simp] theorem brackets_nil : brackets [] = [] := rfl

@[simp] theorem brackets_append : brackets (ts ++ us) = brackets ts ++ brackets us := by
  simp [brackets]

theorem brackets_singleton (t : Token) : brackets [t] = t.bracket?.toList := by
  cases h : t.bracket? <;> simp [brackets, h]

-- Token `i` of `ts` stands at the top level: the brackets before it balance.
def TopLevel (ts : List Token) (i : Nat) : Prop := Balanced (brackets (ts.take i))

namespace Scan

variable {t eof : Token} {ts : List Token} {c o : Char}

theorem isOpener_iff : isOpener c = true ↔ ∃ c', (c, c') ∈ bracketPairs := by
  simp only [isOpener, bracketPairs, Bool.or_eq_true, beq_iff_eq, List.mem_cons, Prod.mk.injEq,
    List.not_mem_nil, or_false]
  constructor
  · rintro ((rfl | rfl) | rfl)
    exacts [⟨_, .inl ⟨rfl, rfl⟩⟩, ⟨_, .inr (.inl ⟨rfl, rfl⟩)⟩, ⟨_, .inr (.inr ⟨rfl, rfl⟩)⟩]
  · rintro ⟨c', ⟨rfl, -⟩ | ⟨rfl, -⟩ | ⟨rfl, -⟩⟩ <;> simp

theorem opener_eq_some : opener c = some o ↔ (o, c) ∈ bracketPairs := by
  unfold opener
  split <;> simp_all [bracketPairs, eq_comm]

theorem bracket?_symbol (ht : t.kind = .symbol c) :
    t.bracket? = if isOpener c || (opener c).isSome then some c else none := by
  have hopen : isOpening c = isOpener c := by
    rw [Bool.eq_iff_iff]
    simp [isOpening, isOpener, bracketPairs, or_assoc]
  have hclose : isClosing c = (opener c).isSome := by
    unfold isClosing opener
    split <;> simp_all [bracketPairs]
  simp [Token.bracket?, ht, hopen, hclose]

-- A token a reader takes after its keyword: no bracket, no `import`, and of the keywords that
-- declare only `attachment`, standing as a name.
def Readable (t : Token) : Prop :=
  t.bracket? = none ∧ t.kind ≠ .keyword .import ∧
    ∀ k, t.kind = .keyword k → (CompositeKind.ofKeyword? k).isSome → k = .attachment

theorem readable_of_kind (hs : ∀ c, t.kind ≠ .symbol c) (hk : ∀ k, t.kind ≠ .keyword k) :
    Readable t := by
  refine ⟨?_, hk _, fun k h => absurd h (hk k)⟩
  unfold Token.bracket?
  split
  · exact absurd ‹_› (hs _)
  · rfl

theorem readable_of_keyword {k : Keyword} (hk : t.kind = .keyword k) (hi : k ≠ .import)
    (hc : (CompositeKind.ofKeyword? k).isSome → k = .attachment) : Readable t := by
  refine ⟨by simp [Token.bracket?, hk], by simp [hk, hi], fun k' hk' => ?_⟩
  rw [hk] at hk'
  cases hk'
  exact hc

theorem readable_of_nameOf (h : nameOf? t = some n) : Readable t := by
  unfold nameOf? at h
  split at h
  case h_1 hk => exact readable_of_kind (fun c => by simp [hk]) (fun k => by simp [hk])
  case h_2 k hk =>
    refine readable_of_keyword hk (fun he => by simp [he, Keyword.isContextual] at h) fun _ => ?_
    cases k <;> simp_all [Keyword.isContextual, CompositeKind.ofKeyword?]
  case h_3 => cases h

theorem readable_comma (h : t.isSymbol ',' = true) : Readable t := by
  have hk : t.kind = .symbol ',' := by simpa [Token.isSymbol] using h
  refine ⟨?_, by simp [hk], fun k h => by simp [hk] at h⟩
  rw [bracket?_symbol hk]
  decide

theorem readable_of_locationOf (h : locationOf t = .ok loc) : Readable t := by
  unfold locationOf at h
  split at h
  case h_1 hk | h_2 hk => exact readable_of_kind (fun c => by simp [hk]) (fun k => by simp [hk])
  case h_3 => cases h
  case h_4 =>
    split at h
    case isTrue ha =>
      cases hk' : t.kind
      all_goals simp_all [TokenKind.isAddressLiteral]
      exact readable_of_kind (fun c => by simp [hk']) (fun k => by simp [hk'])
    case isFalse => cases h

theorem tokenAt_of_lt (hj : j < ts.length) : tokenAt eof ts j = ts[j] := by
  simp [tokenAt, List.getElem?_eq_getElem hj]

-- The end of the text is no name and no location.
-- A token other than the end, taken at index `j`, is a token of the list.
theorem lt_of_tokenAt (heof : eof.kind = .eof) (ht : (tokenAt eof ts j).kind ≠ .eof) :
    j < ts.length := by
  by_contra hj
  rw [tokenAt_of_le (by omega)] at ht
  exact ht heof

theorem getElem?_of_tokenAt (heof : eof.kind = .eof) (ht : (tokenAt eof ts j).kind ≠ .eof) :
    ts[j]? = some (tokenAt eof ts j) := by
  rw [tokenAt_of_lt (lt_of_tokenAt heof ht), List.getElem?_eq_getElem]

theorem moreNames_spec (h : moreNames eof ts = .ok (ns, k)) :
    k ≤ ts.length ∧ ∀ y < k, ∃ t, ts[y]? = some t ∧ Readable t := by
  fun_induction moreNames eof ts generalizing ns k
  case case1 comma hc n rest' name hn ih =>
    cases hm : moreNames eof rest' with
    | error e => simp [hm, Except.map] at h
    | ok r =>
      obtain ⟨ns', k'⟩ := r
      simp only [hm, Except.map, Except.ok.injEq, Prod.mk.injEq] at h
      obtain ⟨-, rfl⟩ := h
      have ⟨hle, hr⟩ := ih hm
      refine ⟨by simp; omega, fun y hy => ?_⟩
      match y with
      | 0 => exact ⟨comma, rfl, readable_comma hc⟩
      | 1 => exact ⟨n, rfl, readable_of_nameOf hn⟩
      | y + 2 => simpa using hr y (by omega)
  case case2 | case3 => cases h
  case case4 | case5 =>
    simp only [Except.ok.injEq, Prod.mk.injEq] at h
    obtain ⟨-, rfl⟩ := h
    simp

theorem readImport_spec (heof : eof.kind = .eof) (h : readImport eof ts = .ok (imp, k)) :
    0 < k ∧ k ≤ ts.length ∧ (∀ y < k, ∃ t, ts[y]? = some t ∧ Readable t) ∧
      ∃ t, ts[k - 1]? = some t ∧ imp.span = t.span ∧
        ∀ L, imp.location = .string L → t.kind = .string L := by
  -- the first token alone: a quoted path, an address literal, or one name as its own location
  have hfirst : ∀ {imp' : Import}, imp'.span = (tokenAt eof ts 0).span →
      (∀ L, imp'.location = .string L → (tokenAt eof ts 0).kind = .string L) →
      (tokenAt eof ts 0).kind ≠ .eof → Readable (tokenAt eof ts 0) →
      0 < 1 ∧ 1 ≤ ts.length ∧ (∀ y < 1, ∃ t, ts[y]? = some t ∧ Readable t) ∧
        ∃ t, ts[1 - 1]? = some t ∧ imp'.span = t.span ∧
          ∀ L, imp'.location = .string L → t.kind = .string L := by
    intro imp' hspan hloc hne hr
    have h0 := getElem?_of_tokenAt heof hne
    refine ⟨Nat.one_pos, lt_of_tokenAt heof hne, fun y hy => ?_, _, h0, hspan, hloc⟩
    obtain rfl : y = 0 := by omega
    exact ⟨_, h0, hr⟩
  unfold readImport at h
  dsimp only at h
  split at h
  case h_1 p hk =>
    simp only [pure, Except.pure, Except.ok.injEq, Prod.mk.injEq] at h
    obtain ⟨rfl, rfl⟩ := h
    exact hfirst rfl (fun L hL => by cases hL; exact hk) (by simp [hk])
      (readable_of_kind (fun c => by simp [hk]) (fun k => by simp [hk]))
  case h_2 kind hk =>
    split at h
    case isTrue ha =>
      simp only [pure, Except.pure, Except.ok.injEq, Prod.mk.injEq] at h
      obtain ⟨rfl, rfl⟩ := h
      obtain ⟨n, hn⟩ : ∃ n, (tokenAt eof ts 0).kind = .number n := by
        cases hc : (tokenAt eof ts 0).kind <;> simp_all [TokenKind.isAddressLiteral]
      exact hfirst rfl (fun L hL => by cases hL) (by simp [hn])
        (readable_of_kind (fun c => by simp [hn]) (fun k => by simp [hn]))
    case isFalse =>
      split at h
      case h_2 => cases h
      case h_1 name hn =>
        have hne0 : (tokenAt eof ts 0).kind ≠ .eof := fun he => by
          simp [nameOf?, he] at hn
        cases hm : moreNames eof ts.tail with
        | error e => simp [hm, bind, Except.bind] at h
        | ok mk =>
          obtain ⟨more, k'⟩ := mk
          have ⟨hle, hmore⟩ := moreNames_spec hm
          simp only [hm, bind, Except.bind] at h
          split at h
          case isTrue hfrom =>
            cases hl : locationOf (tokenAt eof ts (k' + 2)) with
            | error e => simp [hl] at h
            | ok loc =>
              simp only [hl, pure, Except.pure, Except.ok.injEq, Prod.mk.injEq] at h
              obtain ⟨rfl, rfl⟩ := h
              have hfk : (tokenAt eof ts (k' + 1)).kind = .keyword .from := by
                simpa [Token.isKeyword] using hfrom
              have hne2 : (tokenAt eof ts (k' + 2)).kind ≠ .eof := fun he => by
                simp [locationOf, he] at hl
              refine ⟨by omega, lt_of_tokenAt heof hne2, fun y hy => ?_,
                _, getElem?_of_tokenAt heof hne2, rfl, fun L hL => locationOf_string (hL ▸ hl)⟩
              by_cases hy0 : y = 0
              · subst hy0
                exact ⟨_, getElem?_of_tokenAt heof hne0, readable_of_nameOf hn⟩
              by_cases hy1 : y ≤ k'
              · obtain ⟨t, ht, hr⟩ := hmore (y - 1) (by omega)
                refine ⟨t, ?_, hr⟩
                rw [← ht, List.getElem?_tail]
                congr 1
                omega
              by_cases hy2 : y = k' + 1
              · subst hy2
                exact ⟨_, getElem?_of_tokenAt heof (by simp [hfk]),
                  readable_of_keyword hfk (by decide) (by decide)⟩
              obtain rfl : y = k' + 2 := by omega
              exact ⟨_, getElem?_of_tokenAt heof hne2, readable_of_locationOf hl⟩
          case isFalse =>
            split at h
            case isTrue =>
              simp only [pure, Except.pure, Except.ok.injEq, Prod.mk.injEq] at h
              obtain ⟨rfl, rfl⟩ := h
              exact hfirst rfl (fun L hL => by cases hL) hne0 (readable_of_nameOf hn)
            case isFalse => cases h

theorem readDeclaration_spec (heof : eof.kind = .eof)
    (h : readDeclaration eof kw kind ts = .ok (d, k)) :
    d.kind = kind ∧ k ≤ ts.length ∧ (∀ y < k, ∃ t, ts[y]? = some t ∧ Readable t) ∧
      (d.isInterface = true ↔ ts[0]?.map (·.kind) = some (.keyword .interface)) ∧
      k = (if d.isInterface then 2 else 1) ∧
      ∃ t, ts[k - 1]? = some t ∧ d.span = ⟨kw.span.start, t.span.stop⟩ := by
  unfold readDeclaration at h
  dsimp only at h
  cases hn : nameOf? (tokenAt eof ts (if (tokenAt eof ts 0).isKeyword .interface then 1 else 0)) with
  | none => simp [hn, throw, throwThe, MonadExceptOf.throw] at h
  | some name =>
    simp only [hn, pure, Except.pure, Except.ok.injEq, Prod.mk.injEq] at h
    obtain ⟨rfl, rfl⟩ := h
    have hne : (tokenAt eof ts (if (tokenAt eof ts 0).isKeyword .interface then 1 else 0)).kind ≠
        .eof := fun he => by simp [nameOf?, he] at hn
    refine ⟨rfl, lt_of_tokenAt heof hne, ?_, ?_, by split <;> rfl, _,
      by simpa using getElem?_of_tokenAt heof hne, rfl⟩
    all_goals by_cases hi : (tokenAt eof ts 0).isKeyword .interface
    · -- `interface`, then the name
      have hik : (tokenAt eof ts 0).kind = .keyword .interface := by
        simpa [Token.isKeyword] using hi
      rw [if_pos hi] at hne ⊢
      intro y hy
      match y, hy with
      | 0, _ => exact ⟨_, getElem?_of_tokenAt heof (by simp [hik]),
          readable_of_keyword hik (by decide) (by decide)⟩
      | 1, _ => exact ⟨_, getElem?_of_tokenAt heof hne, readable_of_nameOf (by simpa [hi] using hn)⟩
    · rw [if_neg hi] at hne ⊢
      intro y hy
      obtain rfl : y = 0 := by omega
      exact ⟨_, getElem?_of_tokenAt heof hne, readable_of_nameOf (by simpa [hi] using hn)⟩
    · have hik : (tokenAt eof ts 0).kind = .keyword .interface := by
        simpa [Token.isKeyword] using hi
      simp [hi, getElem?_of_tokenAt heof (show (tokenAt eof ts 0).kind ≠ .eof by simp [hik]), hik]
    · rw [if_neg hi] at hne
      have hik : (tokenAt eof ts 0).kind ≠ .keyword .interface := by
        simpa [Token.isKeyword] using hi
      simp only [hi, Bool.false_eq_true, false_iff, getElem?_of_tokenAt heof hne, Option.map_some,
        Option.some.injEq]
      exact hik

def KeywordAt (ts : List Token) (i : Nat) (k : Keyword) : Prop :=
  ts[i]?.map (·.kind) = some (.keyword k)

def DeclaringAt (ts : List Token) (i : Nat) : Prop :=
  ∃ k, KeywordAt ts i k ∧ (CompositeKind.ofKeyword? k).isSome

-- No token from `i` to `j` is a bracket.
def Unbracketed (ts : List Token) (i j : Nat) : Prop :=
  ∀ x, i ≤ x → x ≤ j → ∃ t, ts[x]? = some t ∧ t.bracket? = none

-- `imp` is read from the `import` at `i` up to its location at `j`, whose span it takes; a
-- quoted path is the value of a string literal written at that span.
structure ImportRead (s : String) (ts : List Token) (imp : Import) (i j : Nat) : Prop where
  keyword : KeywordAt ts i .import
  lt : i < j
  unbracketed : Unbracketed ts i j
  location : ∃ t, ts[j]? = some t ∧ imp.span = t.span ∧
    ∀ L, imp.location = .string L → t.kind = .string L ∧
      Lexer.Quoted (Utf8.slice s.toList t.span.start.offset t.span.stop.offset)

-- `d` is read from its keyword at `i` up to its name at `n`, after an `interface` if it declares
-- one, and spans them.
structure DeclarationRead (ts : List Token) (d : Declaration) (i n : Nat) : Prop where
  keyword : ∃ k, KeywordAt ts i k ∧ CompositeKind.ofKeyword? k = some d.kind
  interface : d.isInterface = true ↔ KeywordAt ts (i + 1) .interface
  name : n = if d.isInterface then i + 2 else i + 1
  unbracketed : Unbracketed ts i n
  span : ∃ t₀ t, ts[i]? = some t₀ ∧ ts[n]? = some t ∧ d.span = ⟨t₀.span.start, t.span.stop⟩

-- Token `x` is taken by a reader after its keyword.
def Consumed (rs : List (Nat × Nat)) (x : Nat) : Prop := ∃ r ∈ rs, r.1 < x ∧ x ≤ r.2

-- What the scan knows after the tokens `pre`: the brackets still open, and the imports and
-- declarations read so far, each from a top-level keyword within `pre`.
structure Scanned (s : String) (ts pre : List Token) (opened : List Char) (imports : List Import)
    (decls : List Declaration) (is ds : List (Nat × Nat)) : Prop where
  nested : Nested (brackets pre) opened
  imports : List.Forall₂ (fun imp r => ImportRead s ts imp r.1 r.2) imports is
  decls : List.Forall₂ (fun d r => DeclarationRead ts d r.1 r.2) decls ds
  importsOrdered : is.Pairwise fun r r' => r.2 < r'.1
  declsOrdered : ds.Pairwise fun r r' => r.2 < r'.1
  within : ∀ r ∈ is ++ ds, r.1 < r.2 ∧ r.2 < pre.length
  importKeywords : ∀ x < pre.length, x ∈ is.map Prod.fst ↔ KeywordAt ts x .import ∧ TopLevel ts x
  declKeywords : ∀ x < pre.length,
    x ∈ ds.map Prod.fst ↔ DeclaringAt ts x ∧ TopLevel ts x ∧ ¬Consumed (is ++ ds) x
  attachments : ∀ x < pre.length, DeclaringAt ts x → TopLevel ts x → Consumed (is ++ ds) x →
    KeywordAt ts x .attachment

theorem topLevel_length (hts : ts = pre ++ rest) : TopLevel ts pre.length ↔ Balanced (brackets pre) := by
  simp [TopLevel, hts]

theorem scanned_start : Scanned s ts [] [] [] [] [] [] :=
  ⟨.balanced .nil, .nil, .nil, .nil, .nil, by simp, by simp, by simp, by simp⟩

namespace Scanned

variable {s : String} {ts pre : List Token} {os : List Char} {imps : List Import}
  {decls : List Declaration} {is ds : List (Nat × Nat)}

theorem not_mem_fst (hs : Scanned s ts pre os imps decls is ds) (hx : pre.length ≤ x) :
    x ∉ (is ++ ds).map Prod.fst := by
  intro hmem
  obtain ⟨r, hr, rfl⟩ := List.mem_map.mp hmem
  have := hs.within r hr
  omega

theorem not_consumed (hs : Scanned s ts pre os imps decls is ds) (hx : pre.length ≤ x) :
    ¬Consumed (is ++ ds) x := by
  rintro ⟨r, hr, -, hle⟩
  have := hs.within r hr
  omega

theorem skip (hs : Scanned s ts pre os imps decls is ds) (hn : Nested (brackets (pre ++ [t])) os')
    (himp : ¬(KeywordAt ts pre.length .import ∧ TopLevel ts pre.length))
    (hdecl : ¬(DeclaringAt ts pre.length ∧ TopLevel ts pre.length)) :
    Scanned s ts (pre ++ [t]) os' imps decls is ds := by
  have hfresh := hs.not_mem_fst (x := pre.length) (Nat.le_refl _)
  simp only [List.map_append, List.mem_append, not_or] at hfresh
  refine ⟨hn, hs.imports, hs.decls, hs.importsOrdered, hs.declsOrdered, fun r hr => ?_,
    fun x hx => ?_, fun x hx => ?_, fun x hx => ?_⟩
  · have := hs.within r hr
    simp only [List.length_append, List.length_singleton]
    omega
  all_goals simp only [List.length_append, List.length_singleton] at hx
  all_goals rcases Nat.lt_succ_iff_lt_or_eq.mp hx with hx | rfl
  · exact hs.importKeywords x hx
  · exact iff_of_false hfresh.1 himp
  · exact hs.declKeywords x hx
  · exact iff_of_false hfresh.2 fun ⟨h₁, h₂, _⟩ => hdecl ⟨h₁, h₂⟩
  · exact hs.attachments x hx
  · exact fun h₁ h₂ _ => absurd ⟨h₁, h₂⟩ hdecl

end Scanned

variable {pre rest : List Token} {u : Token} {k x y : Nat} {rs : List (Nat × Nat)} {r : Nat × Nat}

-- The tokens after a keyword that a reader takes: none is a bracket, so the brackets before and
-- after are those of the tokens before the keyword.
theorem brackets_read (ht : t.bracket? = none) (hk : k ≤ rest.length)
    (hr : ∀ y < k, ∃ u, rest[y]? = some u ∧ Readable u) :
    brackets (pre ++ t :: rest.take k) = brackets pre := by
  have hnone : ∀ u ∈ rest.take k, u.bracket? = none := by
    intro u hu
    obtain ⟨y, hy, rfl⟩ := List.getElem_of_mem hu
    have hy' : y < k := by simp at hy; omega
    obtain ⟨v, hv, hrv⟩ := hr y hy'
    rw [List.getElem_take]
    rw [List.getElem?_eq_getElem (by omega)] at hv
    exact (Option.some.inj hv) ▸ hrv.1
  have hb : brackets (rest.take k) = [] := by
    simpa [brackets, List.filterMap_eq_nil_iff] using hnone
  rw [← List.singleton_append, brackets_append, brackets_append, brackets_singleton, ht, hb]
  simp

theorem consumed_append_singleton :
    Consumed (rs ++ [r]) x ↔ Consumed rs x ∨ r.1 < x ∧ x ≤ r.2 := by
  simp [Consumed, or_and_right, exists_or]

theorem getElem?_read (hts : ts = pre ++ t :: rest ++ [eof]) (hy : y < rest.length) :
    ts[pre.length + 1 + y]? = rest[y]? := by
  rw [hts, List.append_assoc, List.getElem?_append_right (by omega), List.cons_append]
  rw [show pre.length + 1 + y - pre.length = y + 1 by omega, List.getElem?_cons_succ,
    List.getElem?_append_left hy]

theorem getElem?_keyword (hts : ts = pre ++ t :: rest ++ [eof]) : ts[pre.length]? = some t := by
  simp [hts]

theorem readable_read (hts : ts = pre ++ t :: rest ++ [eof]) (hk : k ≤ rest.length)
    (hr : ∀ y < k, ∃ u, rest[y]? = some u ∧ Readable u) (hx : pre.length < x)
    (hxk : x ≤ pre.length + k) : ∃ u, ts[x]? = some u ∧ Readable u := by
  obtain ⟨u, hu, hru⟩ := hr (x - pre.length - 1) (by omega)
  refine ⟨u, ?_, hru⟩
  rw [← hu, ← getElem?_read hts (by omega)]
  congr 1
  omega

theorem not_keywordAt_import (hu : ts[x]? = some u) (hr : Readable u) : ¬KeywordAt ts x .import := by
  simp [KeywordAt, hu, hr.2.1]

theorem attachment_of_readable (hu : ts[x]? = some u) (hr : Readable u) (hd : DeclaringAt ts x) :
    KeywordAt ts x .attachment := by
  obtain ⟨k, hk, hc⟩ := hd
  simp only [KeywordAt, hu, Option.map_some, Option.some.injEq] at hk ⊢
  rw [hk, hr.2.2 k hk hc]

theorem not_declaringAt (hu : ts[x]? = some u) (hk : u.kind = .keyword .import) :
    ¬DeclaringAt ts x := by
  rintro ⟨k, hkx, hc⟩
  simp only [KeywordAt, hu, Option.map_some, Option.some.injEq, hk, TokenKind.keyword.injEq] at hkx
  subst hkx
  simp [CompositeKind.ofKeyword?] at hc

namespace Scanned

variable {s : String} {ts pre rest : List Token} {os : List Char} {imps : List Import}
  {decls : List Declaration} {is ds : List (Nat × Nat)}

theorem readImport (hs : Scanned s ts pre [] imps decls is ds)
    (hts : ts = pre ++ t :: rest ++ [eof]) (heof : eof.kind = .eof) (ht : t.kind = .keyword .import)
    (hspell : ∀ (x : Nat) (u : Token), ts[x]? = some u →
      Lexer.Spells u (Utf8.slice s.toList u.span.start.offset u.span.stop.offset))
    (hr : Scan.readImport eof rest = .ok (imp, k)) :
    Scanned s ts (pre ++ t :: rest.take k) [] (imps ++ [imp]) decls
      (is ++ [(pre.length, pre.length + k)]) ds := by
  obtain ⟨hpos, hk, hread, u, hu, hspan, hloc⟩ := readImport_spec heof hr
  have htb : t.bracket? = none := by simp [Token.bracket?, ht]
  have hlen : (pre ++ t :: rest.take k).length = pre.length + 1 + k := by
    simp; omega
  have hkw : KeywordAt ts pre.length .import := by simp [KeywordAt, getElem?_keyword hts, ht]
  have htop : TopLevel ts pre.length := by
    rw [topLevel_length (show ts = pre ++ (t :: rest ++ [eof]) by simp [hts])]
    exact hs.nested.balanced_iff.mpr rfl
  have hin : ∀ {x}, pre.length < x → x ≤ pre.length + k → ∃ u, ts[x]? = some u ∧ Readable u :=
    fun hx hxk => readable_read hts hk hread hx hxk
  have hfresh := hs.not_mem_fst (x := pre.length) (Nat.le_refl _)
  simp only [List.map_append, List.mem_append, not_or] at hfresh
  have hcons : ∀ x, Consumed (is ++ [(pre.length, pre.length + k)] ++ ds) x ↔
      Consumed (is ++ ds) x ∨ pre.length < x ∧ x ≤ pre.length + k := fun x => by
    simp only [Consumed, List.mem_append, List.mem_singleton]
    constructor
    · rintro ⟨r, (hr | rfl) | hr, h⟩
      exacts [.inl ⟨r, .inl hr, h⟩, .inr h, .inl ⟨r, .inr hr, h⟩]
    · rintro (⟨r, hr | hr, h⟩ | h)
      exacts [⟨r, .inl (.inl hr), h⟩, ⟨r, .inr hr, h⟩, ⟨_, .inl (.inr rfl), h⟩]
  have hread' : ImportRead s ts imp pre.length (pre.length + k) := by
    have hloc' : ts[pre.length + k]? = some u := by
      rw [← hu, ← getElem?_read hts (by omega)]
      congr 1
      omega
    refine ⟨hkw, by omega, fun x hx hxk => ?_, u, hloc', hspan, fun L hL => ⟨hloc L hL, ?_⟩⟩
    · rcases Nat.eq_or_lt_of_le hx with rfl | hx
      · exact ⟨t, getElem?_keyword hts, htb⟩
      · obtain ⟨v, hv, hrv⟩ := hin hx hxk
        exact ⟨v, hv, hrv.1⟩
    · exact hspell _ u hloc' L (hloc L hL)
  refine ⟨?_, List.rel_append hs.imports (.cons hread' .nil), hs.decls, ?_, hs.declsOrdered, ?_,
    fun x hx => ?_, fun x hx => ?_, fun x hx => ?_⟩
  · rw [brackets_read htb hk hread]
    exact hs.nested
  · refine List.pairwise_append.mpr ⟨hs.importsOrdered, List.pairwise_singleton _ _, ?_⟩
    intro r hr r' hr'
    rw [List.mem_singleton.mp hr']
    exact (hs.within r (List.mem_append_left _ hr)).2
  · intro r hr
    rw [hlen]
    simp only [List.append_assoc, List.mem_append, List.mem_singleton] at hr
    rcases hr with hr | rfl | hr
    · have := hs.within r (List.mem_append_left _ hr)
      omega
    · simp only
      omega
    · have := hs.within r (List.mem_append_right _ hr)
      omega
  all_goals rw [hlen] at hx
  · -- the keyword is the new import, the tokens read after it no import
    rw [List.map_append, List.mem_append, List.map_singleton, List.mem_singleton]
    rcases Nat.lt_trichotomy x pre.length with hx' | rfl | hx'
    · rw [← hs.importKeywords x hx']
      exact or_iff_left (by omega)
    · exact iff_of_true (.inr rfl) ⟨hkw, htop⟩
    · obtain ⟨v, hv, hrv⟩ := hin hx' (by omega)
      refine iff_of_false ?_ fun h => not_keywordAt_import hv hrv h.1
      rintro (h | h)
      · exact hfresh.1 (by
          obtain ⟨r, hr, rfl⟩ := List.mem_map.mp h
          have := hs.within r (List.mem_append_left _ hr)
          exact absurd this (by omega))
      · omega
  · rw [hcons]
    rcases Nat.lt_trichotomy x pre.length with hx' | rfl | hx'
    · rw [hs.declKeywords x hx', or_iff_left (by omega)]
    · exact iff_of_false hfresh.2 fun h => not_declaringAt (getElem?_keyword hts) ht h.1
    · refine iff_of_false (fun h => ?_) fun h => h.2.2 (.inr ⟨hx', by omega⟩)
      obtain ⟨r, hr, rfl⟩ := List.mem_map.mp h
      have := hs.within r (List.mem_append_right _ hr)
      omega
  · rw [hcons]
    rcases Nat.lt_trichotomy x pre.length with hx' | rfl | hx'
    · rw [or_iff_left (by omega)]
      exact hs.attachments x hx'
    · exact fun h => absurd h (not_declaringAt (getElem?_keyword hts) ht)
    · obtain ⟨v, hv, hrv⟩ := hin hx' (by omega)
      exact fun hd _ _ => attachment_of_readable hv hrv hd

-- Reading a declaration at a top-level keyword that declares adds it, from the keyword to its
-- name.
theorem readDeclaration (hs : Scanned s ts pre [] imps decls is ds)
    (hts : ts = pre ++ t :: rest ++ [eof]) (heof : eof.kind = .eof) (ht : t.kind = .keyword kw)
    (hkind : CompositeKind.ofKeyword? kw = some kind)
    (hr : Scan.readDeclaration eof t kind rest = .ok (d, k)) :
    Scanned s ts (pre ++ t :: rest.take k) [] imps (decls ++ [d]) is
      (ds ++ [(pre.length, pre.length + k)]) := by
  obtain ⟨hdk, hk, hread, hint, hkn, u, hu, hspan⟩ := readDeclaration_spec heof hr
  have hpos : 0 < k := by rw [hkn]; split <;> omega
  have htb : t.bracket? = none := by simp [Token.bracket?, ht]
  have hlen : (pre ++ t :: rest.take k).length = pre.length + 1 + k := by
    simp; omega
  have hkw : KeywordAt ts pre.length kw := by simp [KeywordAt, getElem?_keyword hts, ht]
  have hdecl : DeclaringAt ts pre.length := ⟨kw, hkw, by simp [hkind]⟩
  have htop : TopLevel ts pre.length := by
    rw [topLevel_length (show ts = pre ++ (t :: rest ++ [eof]) by simp [hts])]
    exact hs.nested.balanced_iff.mpr rfl
  have hin : ∀ {x}, pre.length < x → x ≤ pre.length + k → ∃ u, ts[x]? = some u ∧ Readable u :=
    fun hx hxk => readable_read hts hk hread hx hxk
  have hfresh := hs.not_mem_fst (x := pre.length) (Nat.le_refl _)
  simp only [List.map_append, List.mem_append, not_or] at hfresh
  have hcons : ∀ x, Consumed (is ++ (ds ++ [(pre.length, pre.length + k)])) x ↔
      Consumed (is ++ ds) x ∨ pre.length < x ∧ x ≤ pre.length + k := fun x => by
    rw [← List.append_assoc, consumed_append_singleton]
  have hread' : DeclarationRead ts d pre.length (pre.length + k) := by
    have hname : ts[pre.length + k]? = some u := by
      rw [← hu, ← getElem?_read hts (by omega)]
      congr 1
      omega
    refine ⟨⟨kw, hkw, hdk ▸ hkind⟩, ?_, ?_, fun x hx hxk => ?_, t, u, getElem?_keyword hts, hname,
      hspan⟩
    · rw [hint, KeywordAt, ← getElem?_read hts (y := 0) (by omega)]
    · rw [hkn]
      split <;> omega
    · rcases Nat.eq_or_lt_of_le hx with rfl | hx
      · exact ⟨t, getElem?_keyword hts, htb⟩
      · obtain ⟨v, hv, hrv⟩ := hin hx hxk
        exact ⟨v, hv, hrv.1⟩
  refine ⟨?_, hs.imports, List.rel_append hs.decls (.cons hread' .nil), hs.importsOrdered, ?_, ?_,
    fun x hx => ?_, fun x hx => ?_, fun x hx => ?_⟩
  · rw [brackets_read htb hk hread]
    exact hs.nested
  · refine List.pairwise_append.mpr ⟨hs.declsOrdered, List.pairwise_singleton _ _, ?_⟩
    intro r hr r' hr'
    rw [List.mem_singleton.mp hr']
    exact (hs.within r (List.mem_append_right _ hr)).2
  · intro r hr
    rw [hlen]
    simp only [List.mem_append, List.mem_singleton] at hr
    rcases hr with hr | hr | rfl
    · have := hs.within r (List.mem_append_left _ hr)
      omega
    · have := hs.within r (List.mem_append_right _ hr)
      omega
    · simp only
      omega
  all_goals rw [hlen] at hx
  · -- no token read is an `import`
    rcases Nat.lt_trichotomy x pre.length with hx' | rfl | hx'
    · exact hs.importKeywords x hx'
    · refine iff_of_false hfresh.1 fun h => ?_
      have hkwi : kw = .import := by simpa [KeywordAt, getElem?_keyword hts, ht] using h.1
      subst hkwi
      simp [CompositeKind.ofKeyword?] at hkind
    · obtain ⟨v, hv, hrv⟩ := hin hx' (by omega)
      refine iff_of_false (fun h => ?_) fun h => not_keywordAt_import hv hrv h.1
      obtain ⟨r, hr, rfl⟩ := List.mem_map.mp h
      have := hs.within r (List.mem_append_left _ hr)
      omega
  · -- the keyword is the new declaration, the tokens read after it are taken by it
    rw [hcons, List.map_append, List.mem_append, List.map_singleton, List.mem_singleton]
    rcases Nat.lt_trichotomy x pre.length with hx' | rfl | hx'
    · rw [hs.declKeywords x hx', or_iff_left (by omega), or_iff_left (by omega)]
    · exact iff_of_true (.inr rfl) ⟨hdecl, htop, not_or.mpr ⟨hs.not_consumed (Nat.le_refl _),
        by omega⟩⟩
    · refine iff_of_false ?_ fun h => h.2.2 (.inr ⟨hx', by omega⟩)
      rintro (h | h)
      · obtain ⟨r, hr, rfl⟩ := List.mem_map.mp h
        have := hs.within r (List.mem_append_right _ hr)
        omega
      · omega
  · rw [hcons]
    rcases Nat.lt_trichotomy x pre.length with hx' | rfl | hx'
    · rw [or_iff_left (by omega)]
      exact hs.attachments x hx'
    · rintro - - (h | h)
      · exact absurd h (hs.not_consumed (Nat.le_refl _))
      · omega
    · obtain ⟨v, hv, hrv⟩ := hin hx' (by omega)
      exact fun hd _ _ => attachment_of_readable hv hrv hd

end Scanned

variable {s : String} {p : Program} {decls : List Declaration} {imports : List Import}
  {opened : List (Char × Position)}

theorem bracket?_of_keyword (ht : t.kind = .keyword kw) : t.bracket? = none := by
  simp [Token.bracket?, ht]

theorem not_keywordAt_of_bracket (hts : ts[x]? = some t) (hk : ∀ kw, t.kind ≠ .keyword kw) :
    ¬KeywordAt ts x kw := by
  simp [KeywordAt, hts, hk]

theorem not_declaringAt_of_not_keyword (hts : ts[x]? = some t) (hk : ∀ kw, t.kind ≠ .keyword kw) :
    ¬DeclaringAt ts x := fun ⟨_, h, _⟩ => not_keywordAt_of_bracket hts hk h

theorem scanFrom_scanned (heof : eof.kind = .eof)
    (hspell : ∀ (x : Nat) (u : Token), ts[x]? = some u →
      Lexer.Spells u (Utf8.slice s.toList u.span.start.offset u.span.stop.offset))
    (h : scanFrom eof rest opened decls imports = .ok p) :
    ∀ pre is ds, ts = pre ++ rest ++ [eof] →
      Scanned s ts pre (opened.map Prod.fst) imports.reverse decls.reverse is ds →
      ∃ is' ds', Scanned s ts (pre ++ rest) [] p.imports p.declarations is' ds' := by
  fun_induction scanFrom eof rest opened decls imports
  case case2 =>
    cases h
    intro pre is ds _ hs
    exact ⟨is, ds, by simpa using hs⟩
  case case3 t rest c hc hop ih =>
    intro pre is ds hts hs
    have hb : brackets (pre ++ [t]) = brackets pre ++ [c] := by
      simp [brackets_singleton, bracket?_symbol hc, hop]
    obtain ⟨c', hp⟩ := isOpener_iff.mp hop
    have hk : ∀ kw, t.kind ≠ .keyword kw := fun kw => by simp [hc]
    have hs' := hs.skip (t := t) (hb ▸ hs.nested.push hp)
      (fun h => not_keywordAt_of_bracket (getElem?_keyword hts) hk h.1)
      (fun h => not_declaringAt_of_not_keyword (getElem?_keyword hts) hk h.1)
    simpa using ih h (pre ++ [t]) is ds (by simp [hts]) hs'
  case case5 t rest c hc hop top pos more hcl ih =>
    intro pre is ds hts hs
    have hb : brackets (pre ++ [t]) = brackets pre ++ [c] := by
      simp [brackets_singleton, bracket?_symbol hc, hcl]
    have hk : ∀ kw, t.kind ≠ .keyword kw := fun kw => by simp [hc]
    have hs' := hs.skip (t := t) (hb ▸ hs.nested.pop (opener_eq_some.mp hcl))
      (fun h => not_keywordAt_of_bracket (getElem?_keyword hts) hk h.1)
      (fun h => not_declaringAt_of_not_keyword (getElem?_keyword hts) hk h.1)
    simpa using ih h (pre ++ [t]) is ds (by simp [hts]) hs'
  case case7 t rest c hc hop hcl ih =>
    intro pre is ds hts hs
    have hb : brackets (pre ++ [t]) = brackets pre := by
      simp [brackets_singleton, bracket?_symbol hc, hop, hcl]
    have hk : ∀ kw, t.kind ≠ .keyword kw := fun kw => by simp [hc]
    have hs' := hs.skip (t := t) (hb ▸ hs.nested)
      (fun h => not_keywordAt_of_bracket (getElem?_keyword hts) hk h.1)
      (fun h => not_declaringAt_of_not_keyword (getElem?_keyword hts) hk h.1)
    simpa using ih h (pre ++ [t]) is ds (by simp [hts]) hs'
  case case8 opened decls imports t rest hempty imp k hr hkw ih =>
    intro pre is ds hts hs
    obtain rfl : opened = [] := List.isEmpty_iff.mp hempty
    have hs' := Scanned.readImport hs hts heof hkw hspell hr
    obtain ⟨is', ds', hfin⟩ := ih h (pre ++ t :: rest.take k) _ ds
      (by
        rw [hts]
        simp only [List.append_assoc, List.cons_append]
        rw [← List.append_assoc (List.take k rest), List.take_append_drop])
      (by simpa using hs')
    refine ⟨is', ds', ?_⟩
    rwa [List.append_assoc, List.cons_append, List.take_append_drop] at hfin
  case case10 opened decls imports t rest kw hkw hempty hni kind hkind d k hr ih =>
    intro pre is ds hts hs
    obtain rfl : opened = [] := List.isEmpty_iff.mp hempty
    have hs' := Scanned.readDeclaration hs hts heof hkw hkind hr
    obtain ⟨is', ds', hfin⟩ := ih h (pre ++ t :: rest.take k) is _
      (by
        rw [hts]
        simp only [List.append_assoc, List.cons_append]
        rw [← List.append_assoc (List.take k rest), List.take_append_drop])
      (by simpa using hs')
    refine ⟨is', ds', ?_⟩
    rwa [List.append_assoc, List.cons_append, List.take_append_drop] at hfin
  case case12 opened decls imports t rest kw hkw hempty hni hkind ih =>
    intro pre is ds hts hs
    have hat : ts[pre.length]?.map (·.kind) = some (.keyword kw) := by
      simp [getElem?_keyword hts, hkw]
    have hs' := hs.skip (t := t) (by simpa [brackets_singleton, bracket?_of_keyword hkw] using hs.nested)
      (fun h => hni (by simpa [KeywordAt, hat] using h.1))
      (by
        rintro ⟨⟨kw', hkw', hc⟩, -⟩
        rw [KeywordAt, hat, Option.some.injEq, TokenKind.keyword.injEq] at hkw'
        subst hkw'
        simp [hkind] at hc)
    simpa using ih h (pre ++ [t]) is ds (by simp [hts]) hs'
  case case13 opened decls imports t rest kw hkw hnempty ih =>
    intro pre is ds hts hs
    have hnot : ¬TopLevel ts pre.length := by
      rw [topLevel_length (show ts = pre ++ (t :: rest ++ [eof]) by simp [hts]), hs.nested.balanced_iff]
      intro he
      exact hnempty (by simpa using he)
    have hs' := hs.skip (t := t) (by simpa [brackets_singleton, bracket?_of_keyword hkw] using hs.nested)
      (fun h => hnot h.2) (fun h => hnot h.2)
    simpa using ih h (pre ++ [t]) is ds (by simp [hts]) hs'
  case case14 opened decls imports t rest hns hnk ih =>
    intro pre is ds hts hs
    have hb : t.bracket? = none := by
      unfold Token.bracket?
      split
      · exact absurd ‹_› (hns _)
      · rfl
    have hs' := hs.skip (t := t) (by simpa [brackets_singleton, hb] using hs.nested)
      (fun h => not_keywordAt_of_bracket (getElem?_keyword hts) hnk h.1)
      (fun h => not_declaringAt_of_not_keyword (getElem?_keyword hts) hnk h.1)
    simpa using ih h (pre ++ [t]) is ds (by simp [hts]) hs'
  all_goals cases h

theorem not_keywordAt_of_le {toks : List Token} (heof : eof.kind = .eof) (hx : toks.length ≤ x) :
    ¬KeywordAt (toks ++ [eof]) x kw := by
  rcases Nat.eq_or_lt_of_le hx with rfl | hx
  · simp [KeywordAt, heof]
  · simp [KeywordAt, List.getElem?_eq_none (show (toks ++ [eof]).length ≤ x by simp; omega)]

end Scan

open Scan in
-- Of a program that parses, the imports are read one to one and in order from the `import`
-- keywords at the top level, each up to its location token, whose span it takes; a quoted path
-- is the value of a string literal, written at that span. The declarations are read likewise from
-- the top-level keywords that declare, each spanning its keyword and name, except an
-- `attachment` that a reader takes as a name. No reader takes a bracket, so nothing is read from
-- inside brackets.
theorem parse_topLevel (hp : Program.parse s = .ok p) (ht : Lexer.tokenize s = .ok ts) :
    ∃ is ds : List (Nat × Nat),
      List.Forall₂ (fun imp r => ImportRead s ts imp r.1 r.2) p.imports is ∧
      is.Pairwise (fun r r' => r.2 < r'.1) ∧
      (∀ x, x ∈ is.map Prod.fst ↔ KeywordAt ts x .import ∧ TopLevel ts x) ∧
      List.Forall₂ (fun d r => DeclarationRead ts d r.1 r.2) p.declarations ds ∧
      ds.Pairwise (fun r r' => r.2 < r'.1) ∧
      (∀ x, x ∈ ds.map Prod.fst ↔ DeclaringAt ts x ∧ TopLevel ts x ∧ ¬Consumed (is ++ ds) x) ∧
      ∀ x, DeclaringAt ts x → TopLevel ts x → Consumed (is ++ ds) x → KeywordAt ts x .attachment := by
  obtain ⟨toks, eof, rfl, heof, -⟩ := Lexer.tokenize_eof ht
  have hscan : scanFrom eof toks [] [] [] = .ok p := by
    simpa [Program.parse, ht, bind, Except.bind, Program.ofTokens] using hp
  -- every token's text is the slice of the source at its span
  have hspell : ∀ (x : Nat) (u : Token), (toks ++ [eof])[x]? = some u →
      Lexer.Spells u (Utf8.slice s.toList u.span.start.offset u.span.stop.offset) := fun x u hu =>
    (Lexer.tokenize_layout ht).slice (show s.toList = [] ++ s.toList from rfl) rfl u
      (List.mem_of_getElem? hu)
  obtain ⟨is, ds, hs⟩ := scanFrom_scanned heof hspell hscan [] [] [] (by simp) scanned_start
  simp only [List.nil_append] at hs
  have hpast : ∀ x, toks.length ≤ x → x ∉ (is ++ ds).map Prod.fst := fun x hx => hs.not_mem_fst hx
  simp only [List.map_append, List.mem_append, not_or] at hpast
  refine ⟨is, ds, hs.imports, hs.importsOrdered, fun x => ?_, hs.decls, hs.declsOrdered,
    fun x => ?_, fun x => ?_⟩
  all_goals by_cases hx : x < toks.length
  · exact hs.importKeywords x hx
  · exact iff_of_false (hpast x (by omega)).1 fun h => not_keywordAt_of_le heof (by omega) h.1
  · exact hs.declKeywords x hx
  · refine iff_of_false (hpast x (by omega)).2 ?_
    rintro ⟨⟨_, h, -⟩, -⟩
    exact not_keywordAt_of_le heof (by omega) h
  · exact hs.attachments x hx
  · rintro ⟨_, h, -⟩
    exact absurd h (not_keywordAt_of_le heof (by omega))

-- An import of the name `attachment`, then a contract with an import inside its braces.
def nestedSource : String := "import attachment from \"a\"\ncontract C \x7b\n  import \"b\"\n\x7d"

-- Only the top-level import is read, `attachment` as its name, and the one contract.
example : (Program.parse nestedSource).toOption.map
    (fun p => (p.imports.map (·.names), p.declarations.map (·.name))) = some ([["attachment"]], ["C"]) := by
  decide +kernel

open Scan in
theorem parse_topLevel_nestedSource :
    ∃ p ts, Program.parse nestedSource = .ok p ∧ Lexer.tokenize nestedSource = .ok ts ∧
      ∃ is ds : List (Nat × Nat),
        List.Forall₂ (fun imp r => ImportRead nestedSource ts imp r.1 r.2) p.imports is ∧
        is.Pairwise (fun r r' => r.2 < r'.1) ∧
        (∀ x, x ∈ is.map Prod.fst ↔ KeywordAt ts x .import ∧ TopLevel ts x) ∧
        List.Forall₂ (fun d r => DeclarationRead ts d r.1 r.2) p.declarations ds ∧
        ds.Pairwise (fun r r' => r.2 < r'.1) ∧
        (∀ x, x ∈ ds.map Prod.fst ↔ DeclaringAt ts x ∧ TopLevel ts x ∧ ¬Consumed (is ++ ds) x) ∧
        ∀ x, DeclaringAt ts x → TopLevel ts x → Consumed (is ++ ds) x →
          KeywordAt ts x .attachment := by
  obtain ⟨ts, ht⟩ : ∃ ts, Lexer.tokenize nestedSource = .ok ts := by
    have h : (Lexer.tokenize nestedSource).toOption.isSome = true := by decide +kernel
    revert h
    cases Lexer.tokenize nestedSource <;> simp [Except.toOption]
  obtain ⟨p, hp⟩ : ∃ p, Program.parse nestedSource = .ok p := by
    have h : (Program.parse nestedSource).toOption.isSome = true := by decide +kernel
    revert h
    cases Program.parse nestedSource <;> simp [Except.toOption]
  exact ⟨p, ts, hp, ht, parse_topLevel hp ht⟩

end ContractDeploy
