import ContractDeploy.Proofs.Source.Relabel
import ContractDeploy.Proofs.Source.Scan

namespace ContractDeploy

namespace ImportLocation

-- The location read where `lit` is written in place of a quoted path.
def relabel (l : Option String) : ImportLocation → ImportLocation
  | .string p => (l.map .address).getD (.string p)
  | loc => loc

end ImportLocation

namespace Import

-- The import read where `σ` writes literals at the spans of quoted paths.
def relabel (σ : Span → Option String) (imp : Import) : Import :=
  { imp with location := imp.location.relabel (σ imp.span) }

-- The same names and location, wherever it stands.
def SameText (i j : Import) : Prop := j.names = i.names ∧ j.location = i.location

end Import

namespace Declaration

-- The same kind, interface flag and name, wherever it stands.
def SameName (d e : Declaration) : Prop := e.kind = d.kind ∧ e.isInterface = d.isInterface ∧ e.name = d.name

end Declaration

namespace Scan

variable {σ : Span → Option String} {eof eof' t u : Token} {ts us : List Token}

theorem relabel_cases (t : Token) :
    t.relabel σ = t ∨ ∃ v lit, t.kind = .string v ∧ σ t.span = some lit ∧ t.relabel σ = ⟨.number lit, lit, t.span⟩ := by
  unfold Token.relabel
  split
  case h_1 v lit hk hσ => exact .inr ⟨v, lit, hk, hσ, rfl⟩
  case h_2 => exact .inl rfl

theorem nameOf?_sameText (h : t.SameText u) : nameOf? u = nameOf? t := by
  simp [nameOf?, h.1, h.2]

theorem nameOf?_relabel (h : (t.relabel σ).SameText u) : nameOf? u = nameOf? t := by
  rcases relabel_cases (σ := σ) t with hr | ⟨v, lit, hk, -, hr⟩
  · rw [nameOf?_sameText h, hr]
  · rw [nameOf?_sameText h, hr]
    simp [nameOf?, hk]

theorem isSymbol_relabel (h : (t.relabel σ).SameText u) (ch : Char) : u.isSymbol ch = t.isSymbol ch := by
  rcases relabel_cases (σ := σ) t with hr | ⟨v, lit, hk, -, hr⟩
  · simp [Token.isSymbol, h.1, hr]
  · simp [Token.isSymbol, h.1, hr, hk]

theorem isKeyword_relabel (h : (t.relabel σ).SameText u) (k : Keyword) : u.isKeyword k = t.isKeyword k := by
  rcases relabel_cases (σ := σ) t with hr | ⟨v, lit, hk, -, hr⟩
  · simp [Token.isKeyword, h.1, hr]
  · simp [Token.isKeyword, h.1, hr, hk]

theorem tokenAt_forall₂ {R : Token → Token → Prop} (hts : List.Forall₂ R ts us) (heof : R eof eof')
    (j : Nat) : R (tokenAt eof ts j) (tokenAt eof' us j) := by
  induction hts generalizing j with
  | nil => exact heof
  | cons hr _ ih =>
    cases j with
    | zero => exact hr
    | succ j => exact ih j

theorem moreNames_relabel (hts : List.Forall₂ (fun t u => (t.relabel σ).SameText u) ts us)
    {r : List String × Nat} (h : moreNames eof ts = .ok r) : moreNames eof' us = .ok r := by
  fun_induction moreNames eof ts generalizing us r
  case case1 t hc n rest' name hname ih =>
    cases hts with
    | cons ht hts =>
      cases hts with
      | cons hn hrest =>
        cases hm : moreNames eof rest' with
        | error e => simp [hm, Except.map] at h
        | ok r' =>
          simp only [hm, Except.map, Except.ok.injEq] at h
          subst h
          simp [moreNames, isSymbol_relabel ht, hc, nameOf?_relabel hn, hname, ih hrest hm, Except.map]
  case case2 | case3 => cases h
  case case4 t rest' hc =>
    cases hts with
    | cons ht _ =>
      cases h
      rw [moreNames.eq_def]
      simp only [isSymbol_relabel ht, hc, Bool.false_eq_true, ↓reduceIte]
  case case5 =>
    cases hts
    exact h

theorem locationOf_eq_ok {loc : ImportLocation} : locationOf t = .ok loc ↔
    (∃ p, t.kind = .string p ∧ loc = .string p) ∨ (∃ n, t.kind = .identifier n ∧ loc = .identifier n) ∨
      (t.kind.isAddressLiteral = true ∧ loc = .address t.lexeme) := by
  unfold locationOf
  split
  case h_1 p hk => simp [hk, TokenKind.isAddressLiteral, eq_comm]
  case h_2 n hk => simp [hk, TokenKind.isAddressLiteral, eq_comm]
  case h_3 hk => simp [hk, TokenKind.isAddressLiteral]
  case h_4 k hs hi he =>
    split
    case isTrue ha =>
      simp only [Except.ok.injEq, ha, true_and]
      constructor
      · intro h
        exact .inr (.inr h.symm)
      · rintro (⟨p, hp, -⟩ | ⟨n, hn, -⟩ | h)
        · exact absurd hp (hs p)
        · exact absurd hn (hi n)
        · exact h.symm
    case isFalse ha =>
      simp only [reduceCtorEq, false_iff, not_or, not_exists, not_and, ha, false_and, not_false_eq_true,
        and_true]
      exact ⟨fun x hx => absurd hx (hs x), fun x hx => absurd hx (hi x)⟩

theorem isAddressLiteral_of_hex {lit : String} (h : Lexer.HexLiteral lit.toList) :
    (TokenKind.number lit).isAddressLiteral = true := by
  obtain ⟨ds, hds, -⟩ := h
  rw [← String.ofList_toList (s := lit), hds]
  simp [TokenKind.isAddressLiteral]

theorem relabel_string_none {v : String} (hk : t.kind = .string v) (hr : t.relabel σ = t) :
    σ t.span = none := by
  cases hσ : σ t.span with
  | none => rfl
  | some lit =>
    have := congrArg Token.kind hr
    simp [Token.relabel, hk, hσ] at this

theorem locationOf_relabel (hσ : ∀ sp lit, σ sp = some lit → Lexer.HexLiteral lit.toList)
    (h : (t.relabel σ).SameText u) {loc : ImportLocation} (hl : locationOf t = .ok loc) :
    locationOf u = .ok (loc.relabel (σ t.span)) := by
  rcases relabel_cases (σ := σ) t with hr | ⟨v, lit, hk, hσt, hr⟩
  · rw [hr] at h
    rw [locationOf_eq_ok] at hl ⊢
    rcases hl with ⟨p, hk, rfl⟩ | ⟨n, hk, rfl⟩ | ⟨ha, rfl⟩
    · simp [ImportLocation.relabel, relabel_string_none hk hr, h.1, hk]
    · simp [ImportLocation.relabel, h.1, hk]
    · simp [ImportLocation.relabel, h.1, h.2, ha]
  · rw [hr] at h
    have hloc : loc = .string v := by
      rcases locationOf_eq_ok.mp hl with ⟨p, hp, rfl⟩ | ⟨n, hn, -⟩ | ⟨ha, -⟩
      · rw [hk] at hp
        cases hp
        rfl
      · rw [hk] at hn
        cases hn
      · simp [hk, TokenKind.isAddressLiteral] at ha
    subst hloc
    rw [locationOf_eq_ok]
    refine .inr (.inr ⟨by rw [h.1]; exact isAddressLiteral_of_hex (hσ _ _ hσt), ?_⟩)
    simp [ImportLocation.relabel, hσt, h.2]

theorem readImport_relabel (hσ : ∀ sp lit, σ sp = some lit → Lexer.HexLiteral lit.toList)
    (hts : List.Forall₂ (fun t u => (t.relabel σ).SameText u) ts us) (heof : (eof.relabel σ).SameText eof')
    {imp : Import} {k : Nat} (h : readImport eof ts = .ok (imp, k)) :
    ∃ imp', readImport eof' us = .ok (imp', k) ∧ (imp.relabel σ).SameText imp' := by
  have hfirst := tokenAt_forall₂ hts heof 0
  unfold readImport at h ⊢
  dsimp only at h ⊢
  rcases relabel_cases (σ := σ) (tokenAt eof ts 0) with hr | ⟨v, lit, hk, hσt, hr⟩
  · rw [hr] at hfirst
    obtain ⟨hk₁, hl₁⟩ := hfirst
    rw [hk₁, hl₁]
    split at h
    case h_1 p hp =>
      simp only [pure, Except.pure, Except.ok.injEq, Prod.mk.injEq] at h ⊢
      obtain ⟨rfl, rfl⟩ := h
      refine ⟨_, ⟨rfl, rfl⟩, rfl, ?_⟩
      simp [Import.relabel, ImportLocation.relabel, relabel_string_none hp hr]
    case h_2 kk hkk =>
      rw [nameOf?_sameText ⟨hk₁, hl₁⟩]
      split at h
      case isTrue ha =>
        rw [if_pos ha]
        simp only [pure, Except.pure, Except.ok.injEq, Prod.mk.injEq] at h ⊢
        obtain ⟨rfl, rfl⟩ := h
        exact ⟨_, ⟨rfl, rfl⟩, rfl, rfl⟩
      case isFalse ha =>
        rw [if_neg ha]
        split at h
        case h_1 name hname =>
          have htail : List.Forall₂ (fun t u => (t.relabel σ).SameText u) ts.tail us.tail := by
            simpa using List.forall₂_drop 1 hts
          cases hm : moreNames eof ts.tail with
          | error e => simp [hm, bind, Except.bind] at h
          | ok mk =>
            obtain ⟨more, k'⟩ := mk
            simp only [hm, moreNames_relabel htail hm, bind, Except.bind] at h ⊢
            rw [isKeyword_relabel (tokenAt_forall₂ hts heof (k' + 1))]
            split at h
            case isTrue hfrom =>
              rw [if_pos hfrom]
              cases hl : locationOf (tokenAt eof ts (k' + 2)) with
              | error e => simp [hl] at h
              | ok loc =>
                have hplace := tokenAt_forall₂ hts heof (k' + 2)
                simp only [hl, locationOf_relabel hσ hplace hl, pure, Except.pure, Except.ok.injEq,
                  Prod.mk.injEq] at h ⊢
                obtain ⟨rfl, rfl⟩ := h
                exact ⟨_, ⟨rfl, rfl⟩, rfl, rfl⟩
            case isFalse hfrom =>
              rw [if_neg hfrom]
              split at h
              case isTrue hone =>
                rw [if_pos hone]
                simp only [pure, Except.pure, Except.ok.injEq, Prod.mk.injEq] at h ⊢
                obtain ⟨rfl, rfl⟩ := h
                exact ⟨_, ⟨rfl, rfl⟩, rfl, rfl⟩
              case isFalse => cases h
        case h_2 => cases h
  · -- a quoted path at a relabelled span: read as the address literal
    rw [hr] at hfirst
    obtain ⟨hk₁, hl₁⟩ := hfirst
    have haddr := isAddressLiteral_of_hex (hσ _ _ hσt)
    simp only [hk, pure, Except.pure, Except.ok.injEq, Prod.mk.injEq] at h
    obtain ⟨rfl, rfl⟩ := h
    simp only [hk₁, haddr, if_true, hl₁, pure, Except.pure]
    refine ⟨_, rfl, rfl, ?_⟩
    simp [Import.relabel, ImportLocation.relabel, hσt]

theorem readDeclaration_relabel (hts : List.Forall₂ (fun t u => (t.relabel σ).SameText u) ts us)
    (heof : (eof.relabel σ).SameText eof') {kw : Token} {kind : CompositeKind} {d : Declaration}
    {k : Nat} (kw' : Token) (h : readDeclaration eof kw kind ts = .ok (d, k)) :
    ∃ d', readDeclaration eof' kw' kind us = .ok (d', k) ∧ d.SameName d' := by
  unfold readDeclaration at h ⊢
  dsimp only at h ⊢
  rw [isKeyword_relabel (tokenAt_forall₂ hts heof 0), nameOf?_relabel (tokenAt_forall₂ hts heof _)]
  split at h
  case h_1 name hname =>
    simp only [pure, Except.pure, Except.ok.injEq, Prod.mk.injEq] at h ⊢
    obtain ⟨rfl, rfl⟩ := h
    exact ⟨_, ⟨rfl, rfl⟩, rfl, rfl, rfl⟩
  case h_2 => cases h

theorem relabel_of_not_string (h : ∀ v, t.kind ≠ .string v) : t.relabel σ = t :=
  Token.relabel_of_none fun v hv => absurd hv (h v)

theorem kind_eq_of_sameText (h : (t.relabel σ).SameText u) (hk : ∀ v, t.kind ≠ .string v) :
    u.kind = t.kind := by
  rw [relabel_of_not_string hk] at h
  exact h.1

theorem kind_other_of_sameText (h : (t.relabel σ).SameText u) (hs : ∀ c, t.kind ≠ .symbol c)
    (hk : ∀ kw, t.kind ≠ .keyword kw) : (∀ c, u.kind ≠ .symbol c) ∧ ∀ kw, u.kind ≠ .keyword kw := by
  rcases relabel_cases (σ := σ) t with hr | ⟨v, lit, -, -, hr⟩
  · rw [hr] at h
    rw [h.1]
    exact ⟨hs, hk⟩
  · rw [hr] at h
    rw [h.1]
    exact ⟨fun _ => TokenKind.noConfusion, fun _ => TokenKind.noConfusion⟩

theorem isEmpty_forall₂ {α β : Type} {R : α → β → Prop} {l₁ : List α} {l₂ : List β}
    (h : List.Forall₂ R l₁ l₂) : l₂.isEmpty = l₁.isEmpty := by
  cases h <;> rfl

-- Scanning relabelled tokens finds the same declarations and imports, up to spans, each quoted
-- path at a relabelled span now an address literal.
theorem scanFrom_relabel (hσ : ∀ sp lit, σ sp = some lit → Lexer.HexLiteral lit.toList)
    (hts : List.Forall₂ (fun t u => (t.relabel σ).SameText u) ts us) (heof : (eof.relabel σ).SameText eof')
    {opened opened' : List (Char × Position)} {decls decls' : List Declaration} {imports imports' : List Import}
    (hop : List.Forall₂ (fun a b => a.1 = b.1) opened opened')
    (hd : List.Forall₂ Declaration.SameName decls decls')
    (hi : List.Forall₂ (fun i j => (i.relabel σ).SameText j) imports imports') {p : Program}
    (h : scanFrom eof ts opened decls imports = .ok p) :
    ∃ q, scanFrom eof' us opened' decls' imports' = .ok q ∧
      List.Forall₂ Declaration.SameName p.declarations q.declarations ∧
      List.Forall₂ (fun i j => (i.relabel σ).SameText j) p.imports q.imports := by
  -- Each step of the scan reads the same token kinds in both lists: only string tokens change,
  -- and the scan looks inside them only through `readImport`.
  fun_induction scanFrom eof ts opened decls imports generalizing us opened' decls' imports'
  case case1 => cases h
  case case2 =>
    cases hts
    cases hop
    cases h
    refine ⟨⟨decls'.reverse, imports'.reverse⟩, ?_, List.forall₂_reverse_iff.2 hd, List.forall₂_reverse_iff.2 hi⟩
    rw [scanFrom]
  case case3 t rest c htk hopen ih =>
    cases hts with
    | @cons _ u _ us hu hrest =>
      have huk : u.kind = .symbol c := (kind_eq_of_sameText hu (by simp [htk])).trans htk
      obtain ⟨q, hq, hdq, hiq⟩ := ih hrest (.cons (b := (c, u.span.start)) rfl hop) hd hi h
      refine ⟨q, ?_, hdq, hiq⟩
      rw [scanFrom]
      simp only [huk, hopen, ↓reduceIte]
      exact hq
  case case4 => cases h
  case case5 t rest c htk hopen top pos more hclose ih =>
    cases hts with
    | @cons _ u _ us hu hrest =>
      cases hop with
      | @cons _ b _ opened' hb hop =>
        have huk : u.kind = .symbol c := (kind_eq_of_sameText hu (by simp [htk])).trans htk
        obtain ⟨q, hq, hdq, hiq⟩ := ih hrest hop hd hi h
        refine ⟨q, ?_, hdq, hiq⟩
        obtain ⟨top', pos'⟩ := b
        obtain rfl : top = top' := hb
        rw [scanFrom]
        simp only [huk, hopen, hclose, Bool.false_eq_true, ↓reduceIte]
        exact hq
  case case6 => cases h
  case case7 t rest c htk hopen hclose ih =>
    cases hts with
    | @cons _ u _ us hu hrest =>
      have huk : u.kind = .symbol c := (kind_eq_of_sameText hu (by simp [htk])).trans htk
      obtain ⟨q, hq, hdq, hiq⟩ := ih hrest hop hd hi h
      refine ⟨q, ?_, hdq, hiq⟩
      rw [scanFrom]
      simp only [huk, hopen, hclose, Bool.false_eq_true, ↓reduceIte]
      exact hq
  case case8 t rest hempty imp k hread htk ih =>
    cases hts with
    | @cons _ u _ us hu hrest =>
      have huk : u.kind = .keyword .import := (kind_eq_of_sameText hu (by simp [htk])).trans htk
      obtain ⟨imp', hread', himp⟩ := readImport_relabel hσ hrest heof hread
      obtain ⟨q, hq, hdq, hiq⟩ := ih (List.forall₂_drop k hrest) hop hd (.cons himp hi) h
      refine ⟨q, ?_, hdq, hiq⟩
      rw [scanFrom]
      simp only [huk, isEmpty_forall₂ hop, hempty, ↓reduceIte, hread']
      exact hq
  case case9 => cases h
  case case10 t rest kw htk hempty hkw kind hkind d k hread ih =>
    cases hts with
    | @cons _ u _ us hu hrest =>
      have huk : u.kind = .keyword kw := (kind_eq_of_sameText hu (by simp [htk])).trans htk
      obtain ⟨d', hread', hdd⟩ := readDeclaration_relabel hrest heof u hread
      obtain ⟨q, hq, hdq, hiq⟩ := ih (List.forall₂_drop k hrest) hop (.cons hdd hd) hi h
      refine ⟨q, ?_, hdq, hiq⟩
      rw [scanFrom]
      simp only [huk, isEmpty_forall₂ hop, hempty, hkw, hkind, ↓reduceIte, hread']
      exact hq
  case case11 => cases h
  case case12 t rest kw htk hempty hkw hkind ih =>
    cases hts with
    | @cons _ u _ us hu hrest =>
      have huk : u.kind = .keyword kw := (kind_eq_of_sameText hu (by simp [htk])).trans htk
      obtain ⟨q, hq, hdq, hiq⟩ := ih hrest hop hd hi h
      refine ⟨q, ?_, hdq, hiq⟩
      rw [scanFrom]
      simp only [huk, isEmpty_forall₂ hop, hempty, hkw, hkind, ↓reduceIte]
      exact hq
  case case13 t rest kw htk hne ih =>
    cases hts with
    | @cons _ u _ us hu hrest =>
      have huk : u.kind = .keyword kw := (kind_eq_of_sameText hu (by simp [htk])).trans htk
      obtain ⟨q, hq, hdq, hiq⟩ := ih hrest hop hd hi h
      refine ⟨q, ?_, hdq, hiq⟩
      rw [scanFrom]
      simp only [huk, isEmpty_forall₂ hop, hne, Bool.false_eq_true, ↓reduceIte]
      exact hq
  case case14 t rest hsym hkw ih =>
    cases hts with
    | @cons _ u _ us hu hrest =>
      obtain ⟨q, hq, hdq, hiq⟩ := ih hrest hop hd hi h
      refine ⟨q, ?_, hdq, hiq⟩
      obtain ⟨husym, hukw⟩ := kind_other_of_sameText hu hsym hkw
      rw [scanFrom]
      split
      next c hc => exact absurd hc (husym c)
      next kw hc => exact absurd hc (hukw kw)
      next => exact hq

-- A quoted path spanning `sp` is read at the second token of `kt`, the first a keyword.
def KeyedAt (sp : Span) (kt : Token × Token) : Prop :=
  kt.2.span = sp ∧ (∃ path, kt.2.kind = .string path) ∧ ∃ k, kt.1.kind = .keyword k

theorem zip_tail_drop {α : Type} (l : List α) (n : Nat) :
    (l.drop n).zip (l.drop n).tail = (l.zip l.tail).drop n := by
  simp only [List.zip, List.drop_zipWith, List.tail_drop, List.drop_tail]

theorem zip_tail_sublist_append {α : Type} (l l' : List α) :
    (l.zip l.tail).Sublist ((l ++ l').zip (l ++ l').tail) := by
  induction l with
  | nil => simp
  | cons a l ih =>
    cases l with
    | nil => simp
    | cons b l => simpa using ih

theorem zip_tail_sublist_cons {α : Type} (a : α) (l : List α) :
    (l.zip l.tail).Sublist ((a :: l).zip (a :: l).tail) := by
  have h := zip_tail_drop (a :: l) 1
  rw [List.drop_one, List.tail_cons] at h
  rw [h]
  exact List.drop_sublist _ _

theorem readImport_keyed {kw : Token} {imp : Import} {k : Nat} (hkw : kw.kind = .keyword .import)
    (h : readImport eof ts = .ok (imp, k)) (hp : imp.location.path?.isSome) :
    ∃ j < k, KeyedAt imp.span (tokenAt eof (kw :: ts) j, tokenAt eof ts j) := by
  unfold readImport at h
  dsimp only at h
  split at h
  case h_1 path hk =>
    simp only [pure, Except.pure, Except.ok.injEq, Prod.mk.injEq] at h
    obtain ⟨rfl, rfl⟩ := h
    exact ⟨0, Nat.one_pos, rfl, ⟨path, hk⟩, _, hkw⟩
  case h_2 =>
    split at h
    case isTrue =>
      simp only [pure, Except.pure, Except.ok.injEq, Prod.mk.injEq] at h
      obtain ⟨rfl, rfl⟩ := h
      simp [ImportLocation.path?] at hp
    case isFalse =>
      split at h
      case h_2 => cases h
      case h_1 name _ =>
        cases hm : moreNames eof ts.tail with
        | error e => simp [hm, bind, Except.bind] at h
        | ok mk =>
          obtain ⟨more, k'⟩ := mk
          simp only [hm, bind, Except.bind] at h
          split at h
          case isTrue hfrom =>
            cases hl : locationOf (tokenAt eof ts (k' + 2)) with
            | error e => simp [hl] at h
            | ok loc =>
              simp only [hl, pure, Except.pure, Except.ok.injEq, Prod.mk.injEq] at h
              obtain ⟨rfl, rfl⟩ := h
              obtain ⟨path, hpath⟩ := Option.isSome_iff_exists.mp hp
              have hloc : loc = .string path := by
                cases loc <;> simp_all [ImportLocation.path?]
              have hkfrom : (tokenAt eof ts (k' + 1)).kind = .keyword .from := by
                simpa [Token.isKeyword] using hfrom
              exact ⟨k' + 2, by omega, rfl, ⟨path, locationOf_string (hloc ▸ hl)⟩, .from,
                by simpa [tokenAt] using hkfrom⟩
          case isFalse =>
            split at h
            case isTrue =>
              simp only [pure, Except.pure, Except.ok.injEq, Prod.mk.injEq] at h
              obtain ⟨rfl, rfl⟩ := h
              simp [ImportLocation.path?] at hp
            case isFalse => cases h

-- Every import of a quoted path is read at a token right after a keyword; these pairs of
-- neighbouring tokens come in the order of the imports.
theorem scanFrom_keyed (heof : eof.kind = .eof) (h : scanFrom eof ts opened decls imports = .ok p) :
    ∃ new pairs, p.imports = imports.reverse ++ new ∧
      List.Forall₂ KeyedAt (new.filterMap fun imp => imp.location.path?.map fun _ => imp.span) pairs ∧
      pairs.Sublist (ts.zip ts.tail) := by
  fun_induction scanFrom eof ts opened decls imports
  case case2 =>
    cases h
    exact ⟨[], [], by simp, .nil, List.nil_sublist _⟩
  case case8 t rest _ imp k hr htk ih =>
    obtain ⟨new, pairs, hp, hf, hs⟩ := ih h
    have hs' : pairs.Sublist (((t :: rest).zip (t :: rest).tail).drop (k + 1)) := by
      rw [← zip_tail_drop]
      exact hs
    have hsplit := List.take_append_drop (k + 1) ((t :: rest).zip (t :: rest).tail)
    by_cases hpath : imp.location.path?.isSome
    · -- the import's location token and the keyword before it, among the tokens it read
      obtain ⟨j, hjk, hkey⟩ := readImport_keyed htk hr hpath
      have hj : j < rest.length := by
        by_contra hj
        obtain ⟨-, ⟨path, hpath⟩, -⟩ := hkey
        dsimp only at hpath
        rw [tokenAt_of_le (by omega), heof] at hpath
        cases hpath
      obtain ⟨path, hpath'⟩ := Option.isSome_iff_exists.mp hpath
      refine ⟨imp :: new, _ :: pairs, by simp [hp], by simpa [hpath'] using hf.cons hkey, ?_⟩
      rw [← hsplit, ← List.singleton_append]
      refine List.Sublist.append (List.singleton_sublist.mpr ?_) hs'
      have hj' : j < (t :: rest).length := by simp; omega
      refine List.mem_take_iff_getElem.mpr ⟨j, by simp; omega, ?_⟩
      simp [tokenAt, List.getElem?_eq_getElem hj, List.getElem?_eq_getElem hj']
    · have hnone : imp.location.path? = none := Option.not_isSome_iff_eq_none.mp hpath
      refine ⟨imp :: new, pairs, by simp [hp], by simpa [hnone] using hf, ?_⟩
      exact hs'.trans (List.drop_sublist _ _)
  case case10 k _ ih =>
    obtain ⟨new, pairs, hp, hf, hs⟩ := ih h
    refine ⟨new, pairs, hp, hf, ?_⟩
    rw [show (List.drop k _) = List.drop (k + 1) (_ :: _) from rfl, zip_tail_drop] at hs
    exact hs.trans (List.drop_sublist _ _)
  case case3 ih | case5 ih | case7 ih | case12 ih | case13 ih | case14 ih =>
    obtain ⟨new, pairs, hp, hf, hs⟩ := ih h
    exact ⟨new, pairs, hp, hf, hs.trans (zip_tail_sublist_cons _ _)⟩
  all_goals cases h

end Scan

namespace Program

open Scan

variable {σ : Span → Option String} {ts us : List Token} {e e' : Token} {p : Program} {code : String}

theorem ofTokens_relabel (hσ : ∀ sp lit, σ sp = some lit → Lexer.HexLiteral lit.toList)
    (hts : List.Forall₂ (fun t u => (t.relabel σ).SameText u) ts us) (he : (e.relabel σ).SameText e')
    (h : ofTokens (ts ++ [e]) = .ok p) :
    ∃ q, ofTokens (us ++ [e']) = .ok q ∧
      List.Forall₂ Declaration.SameName p.declarations q.declarations ∧
      List.Forall₂ (fun i j => (i.relabel σ).SameText j) p.imports q.imports := by
  simp only [ofTokens, List.getLast?_concat, Option.getD_some, List.dropLast_concat] at h ⊢
  exact scanFrom_relabel hσ hts he .nil .nil .nil h

theorem parse_keyed (h : parse code = .ok p) (ht : Lexer.tokenize code = .ok ts) :
    ∃ pairs, List.Forall₂ (fun i kt => KeyedAt i.span kt) p.pathImports pairs ∧
      pairs.Sublist (ts.zip ts.tail) := by
  obtain ⟨toks, eof, rfl, heof, -⟩ := Lexer.tokenize_eof ht
  simp only [parse, ht, bind, Except.bind, ofTokens, List.getLast?_concat, Option.getD_some,
    List.dropLast_concat] at h
  obtain ⟨new, pairs, hp, hf, hs⟩ := scanFrom_keyed heof h
  simp only [List.reverse_nil, List.nil_append] at hp
  refine ⟨pairs, ?_, hs.trans (zip_tail_sublist_append toks [eof])⟩
  rw [← List.forall₂_map_left_iff]
  simpa [pathImports, hp, List.map_filterMap, Option.map_map, Function.comp_def] using hf

end Program

end ContractDeploy
