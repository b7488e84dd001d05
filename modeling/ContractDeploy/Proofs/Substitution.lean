import ContractDeploy.Substitution
import ContractDeploy.Proofs.Source.Scan

namespace ContractDeploy

-- The text `gaps[0] ++ pieces[0] ++ gaps[1] ++ pieces[1] ++ … ++ tail`.
def weave (gaps pieces : List (List Char)) (tail : List Char) : List Char :=
  (List.zipWith (· ++ ·) gaps pieces).flatten ++ tail

@[simp] theorem weave_nil (pieces : List (List Char)) (tail : List Char) :
    weave [] pieces tail = tail := rfl

@[simp] theorem weave_cons (g : List Char) (gs : List (List Char)) (p : List Char)
    (ps : List (List Char)) (tail : List Char) :
    weave (g :: gs) (p :: ps) tail = g ++ p ++ weave gs ps tail := by
  simp [weave]

namespace Layout

variable {α : Type} {span : α → Span} {P : α → List Char → Prop}

theorem le_start (h : Layout span P p cs xs) : ∀ y ∈ xs, p.offset ≤ (span y).start.offset := by
  induction h with
  | nil => simp
  | @cons p cs gap lex rest x xs he hst hsp hp _ ih =>
    intro y hy
    have hx : p.offset ≤ (span x).start.offset := by
      rw [hst, Position.offset_advanceAll]
      omega
    have hxs : (span x).start.offset ≤ (span x).stop.offset := by
      rw [hsp, Position.offset_advanceAll]
      omega
    rcases List.mem_cons.mp hy with rfl | hy
    · exact hx
    · exact Nat.le_trans hx (Nat.le_trans hxs (ih y hy))

theorem sorted (h : Layout span P p cs xs) :
    xs.Pairwise fun a b => decide ((span a).start.offset ≤ (span b).start.offset) = true := by
  induction h with
  | nil => exact .nil
  | @cons p cs gap lex rest x xs he hst hsp hp hl ih =>
    refine List.Pairwise.cons (fun y hy => ?_) ih
    have hxs : (span x).start.offset ≤ (span x).stop.offset := by
      rw [hsp, Position.offset_advanceAll]
      omega
    simpa using Nat.le_trans hxs (hl.le_start y hy)

end Layout

namespace Splice

open Lexer

variable {resolve : String → Option Address}

-- What stands at an import in the code with addresses substituted: the address literal of its
-- location if it resolves, else its literal as written.
def piece (resolve : String → Option Address) (i : SourceImport) (lex : List Char) : List Char :=
  ((resolve i.location).map (·.literal.toList)).getD lex

theorem zipWith_piece {is : List SourceImport} {lexes : List (List Char)} {addrs : List Address}
    (hres : List.Forall₂ (fun i a => resolve i.location = some a) is addrs)
    (hlen : lexes.length = is.length) :
    List.zipWith (piece resolve) is lexes = addrs.map (·.literal.toList) := by
  induction hres generalizing lexes with
  | nil => simp
  | @cons i a is addrs hi _ ih =>
    cases lexes with
    | nil => simp at hlen
    | cons lex lexes => simp [piece, hi, ih (Nat.succ.inj hlen)]

theorem zipWith_piece_of_none {is : List SourceImport} {lexes : List (List Char)}
    (hres : ∀ i ∈ is, resolve i.location = none) (hlen : lexes.length = is.length) :
    List.zipWith (piece resolve) is lexes = lexes := by
  induction is generalizing lexes with
  | nil => simp_all
  | cons i is ih =>
    cases lexes with
    | nil => simp at hlen
    | cons lex lexes =>
      have hrest := ih (fun j hj => hres j (List.mem_cons_of_mem _ hj)) (Nat.succ.inj hlen)
      simp [piece, hres i List.mem_cons_self, hrest]

-- `Spliced resolve p cs is ds`: reading `cs` from `p`, the imports `is` lie in order at quoted
-- literals, and `ds` is `cs` with the literal of each import that resolves replaced by its address.
inductive Spliced (resolve : String → Option Address) :
    Position → List Char → List SourceImport → List Char → Prop
  | nil : Spliced resolve p cs [] cs
  | cons {p : Position} {cs gap lex rest ds : List Char} {x : SourceImport} {xs : List SourceImport} :
      cs = gap ++ lex ++ rest → x.span.start = p.advanceAll gap →
      x.span.stop = x.span.start.advanceAll lex → Quoted lex →
      Spliced resolve x.span.stop rest xs ds → Spliced resolve p cs (x :: xs) (gap ++ piece resolve x lex ++ ds)

section Step

variable {code : List Char} {len cursor : Nat} {out : List Char} {imp : SourceImport}

-- One step: an import that resolves, starts at or past the cursor and ends within the code is
-- replaced; every other import is passed over.
theorem spanStep_of_fits {a : Address} (hr : resolve imp.location = some a)
    (hin : cursor ≤ imp.span.start.offset ∧ imp.span.stop.offset ≤ len) :
    spanStep code len resolve (out, cursor) imp =
      (out ++ Utf8.slice code cursor imp.span.start.offset ++ a.literal.toList,
        imp.span.stop.offset) := by
  simp only [spanStep, hr]
  rw [if_neg (by simp only [Bool.or_eq_true, decide_eq_true_eq]; omega)]

theorem spanStep_of_not_fits {a : Address} (hr : resolve imp.location = some a)
    (hin : ¬(cursor ≤ imp.span.start.offset ∧ imp.span.stop.offset ≤ len)) :
    spanStep code len resolve (out, cursor) imp = (out, cursor) := by
  simp only [spanStep, hr]
  rw [if_pos (by simp only [Bool.or_eq_true, decide_eq_true_eq]; omega)]

theorem spanStep_of_unresolved (hr : resolve imp.location = none) :
    spanStep code len resolve (out, cursor) imp = (out, cursor) := by
  simp [spanStep, hr]

end Step

-- Taking the imports in turn, each resolved one is replaced at its span and each other one
-- left as it stands. The invariant: the code before `pending` is written out, `pending` is read
-- past but not yet written, and the layout goes on from there.
theorem foldl_spanStep (resolve : String → Option Address) {T pre pending cs : List Char}
    {p : Position} {is : List SourceImport}
    (h : Layout SourceImport.span (fun _ => Quoted) p cs is)
    (hT : T = pre ++ pending ++ cs) (hp : p.offset = Utf8.byteCount (pre ++ pending))
    (out : List Char) :
    ∃ ds, Spliced resolve p cs is ds ∧
      (is.foldl (spanStep T (Utf8.byteCount T) resolve) (out, Utf8.byteCount pre)).1 ++
          Utf8.slice T (is.foldl (spanStep T (Utf8.byteCount T) resolve)
            (out, Utf8.byteCount pre)).2 (Utf8.byteCount T) =
        out ++ pending ++ ds := by
  induction h generalizing pre pending out with
  | @nil p cs =>
    refine ⟨cs, .nil, ?_⟩
    have hrest : Utf8.slice T (Utf8.byteCount pre) (Utf8.byteCount T) = pending ++ cs := by
      rw [hT]
      simpa [Nat.add_assoc] using Utf8.slice_eq pre (pending ++ cs) []
    simp [hrest]
  | @cons p cs gap lex rest x xs he hst hsp hq _ ih =>
    have hstart : x.span.start.offset = Utf8.byteCount (pre ++ pending ++ gap) := by
      rw [hst, Position.offset_advanceAll, hp]
      simp [Nat.add_assoc]
    have hstop : x.span.stop.offset = Utf8.byteCount (pre ++ pending ++ gap ++ lex) := by
      simp only [hsp, Position.offset_advanceAll, hstart, Utf8.byteCount_append]
    have hT' : T = pre ++ (pending ++ gap) ++ (lex ++ rest) := by simp [hT, he]
    cases hx : resolve x.location with
    | none =>
      -- left as it stands: the literal joins the text read but not written
      have ⟨ds, hds, hfold⟩ :=
        @ih pre (pending ++ gap ++ lex) (by simp [hT, he]) (by rw [hstop]; simp) out
      refine ⟨_, .cons he hst hsp hq hds, ?_⟩
      rw [List.foldl_cons, spanStep_of_unresolved hx, hfold]
      simp [piece, hx]
    | some a =>
      -- replaced: the text read is written, then the address
      have hgap : Utf8.slice T (Utf8.byteCount pre) x.span.start.offset = pending ++ gap := by
        rw [hstart, hT']
        simpa [Nat.add_assoc] using Utf8.slice_eq pre (pending ++ gap) (lex ++ rest)
      have hin : Utf8.byteCount pre ≤ x.span.start.offset ∧
          x.span.stop.offset ≤ Utf8.byteCount T := by
        simp only [hstart, hstop, hT', Utf8.byteCount_append]
        omega
      have hstep : spanStep T (Utf8.byteCount T) resolve (out, Utf8.byteCount pre) x =
          (out ++ pending ++ gap ++ a.literal.toList, x.span.stop.offset) := by
        rw [spanStep_of_fits hx hin, hgap]
        simp
      have ⟨ds, hds, hfold⟩ :=
        @ih (pre ++ pending ++ gap ++ lex) [] (by simp [hT, he])
          (by rw [hstop]; simp) (out ++ pending ++ gap ++ a.literal.toList)
      refine ⟨_, .cons he hst hsp hq hds, ?_⟩
      rw [← hstop] at hfold
      rw [List.foldl_cons, hstep, hfold]
      simp [piece, hx]

-- The text written for spliced imports, as gaps, literals and pieces woven together; each
-- literal is the slice of the whole text `T` at its import's span.
theorem Spliced.weave {T pre : List Char} (h : Spliced resolve p cs is ds) (hT : T = pre ++ cs)
    (hp : p.offset = Utf8.byteCount pre) :
    ∃ gaps lexes tail, cs = ContractDeploy.weave gaps lexes tail ∧ gaps.length = is.length ∧
      List.Forall₂ (fun i lex => Quoted lex ∧
        lex = Utf8.slice T i.span.start.offset i.span.stop.offset) is lexes ∧
      ds = ContractDeploy.weave gaps (List.zipWith (piece resolve) is lexes) tail := by
  induction h generalizing pre with
  | nil => exact ⟨[], [], _, (weave_nil _ _).symm, rfl, .nil, (weave_nil _ _).symm⟩
  | @cons p cs gap lex rest ds x xs he hst hsp hq _ ih =>
    have hstart : x.span.start.offset = Utf8.byteCount (pre ++ gap) := by
      rw [hst, Position.offset_advanceAll, hp, Utf8.byteCount_append]
    have hstop : x.span.stop.offset = Utf8.byteCount (pre ++ gap) + Utf8.byteCount lex := by
      rw [hsp, Position.offset_advanceAll, hstart]
    have hT' : T = pre ++ gap ++ lex ++ rest := by rw [hT, he]; simp
    have hlex : lex = Utf8.slice T x.span.start.offset x.span.stop.offset := by
      rw [hstart, hstop, hT', Utf8.slice_eq]
    have ⟨gaps, lexes, tail, hcs, hlen, hlexes, hds⟩ :=
      ih (by rw [hT']) (by rw [hstop, ← Utf8.byteCount_append])
    exact ⟨gap :: gaps, lex :: lexes, tail, by simp [he, hcs], by simp [hlen],
      .cons ⟨hq, hlex⟩ hlexes, by simp [hds]⟩

end Splice

open Lexer in
theorem substituteSpans_spliced {code : String} {is : List SourceImport}
    (h : Layout SourceImport.span (fun _ => Quoted) .start code.toList is)
    (resolve : String → Option Address) :
    Splice.Spliced resolve .start code.toList is (substituteSpans code is resolve).toList := by
  have hsorted := List.mergeSort_of_pairwise h.sorted
  have ⟨ds, hds, hfold⟩ :=
    Splice.foldl_spanStep resolve h (show code.toList = [] ++ [] ++ code.toList from rfl) rfl []
  simp only [List.nil_append, Utf8.byteCount_nil] at hfold
  simp only [substituteSpans, hsorted, Utf8.utf8ByteSize_eq, String.toList_ofList, hfold]
  exact hds

open Lexer in
-- Where the imports of a code lie in order at quoted literals, the code with addresses
-- substituted at the spans is the code with the literal of each import that resolves replaced
-- by its address, and all else as it stands.
theorem substituteSpans_weave {code : String} {is : List SourceImport}
    (h : Layout SourceImport.span (fun _ => Quoted) .start code.toList is)
    (resolve : String → Option Address) :
    ∃ gaps lexes tail, code.toList = weave gaps lexes tail ∧ gaps.length = is.length ∧
      List.Forall₂ (fun i lex => Quoted lex ∧
        lex = Utf8.slice code.toList i.span.start.offset i.span.stop.offset) is lexes ∧
      (substituteSpans code is resolve).toList =
        weave gaps (List.zipWith (Splice.piece resolve) is lexes) tail :=
  (substituteSpans_spliced h resolve).weave (show code.toList = [] ++ code.toList from rfl) rfl

open Lexer in
theorem substituteSpans_eq {code : String} {is : List SourceImport} {resolve : String → Option Address}
    (h : Layout SourceImport.span (fun _ => Quoted) .start code.toList is)
    (hres : List.Forall₂ (fun i a => resolve i.location = some a) is addrs) :
    ∃ gaps lexes tail, code.toList = weave gaps lexes tail ∧
      (substituteSpans code is resolve).toList = weave gaps (addrs.map (·.literal.toList)) tail ∧
      gaps.length = is.length ∧
      List.Forall₂ (fun i lex => Quoted lex ∧
        lex = Utf8.slice code.toList i.span.start.offset i.span.stop.offset) is lexes := by
  obtain ⟨gaps, lexes, tail, hcs, hlen, hlex, hnew⟩ := substituteSpans_weave h resolve
  rw [Splice.zipWith_piece hres hlex.length_eq.symm] at hnew
  exact ⟨gaps, lexes, tail, hcs, hnew, hlen, hlex⟩

end ContractDeploy
