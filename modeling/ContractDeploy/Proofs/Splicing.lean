import ContractDeploy.Proofs.Substitution
import ContractDeploy.Proofs.Source.Positions
import ContractDeploy.Proofs.StableSort
import Mathlib.Data.List.Pairwise

namespace ContractDeploy

namespace Utf8

variable {cs : List Char} {a b n : Nat}

theorem byteCount_eq_zero : byteCount cs = 0 ↔ cs = [] := by
  cases cs with
  | nil => simp
  | cons c cs =>
    have := Char.utf8Size_pos c
    simp only [byteCount_cons, reduceCtorEq, iff_false]
    omega

theorem isBoundary_iff : isBoundary n cs = true ↔ ∃ p r, cs = p ++ r ∧ byteCount p = n := by
  constructor
  · intro h
    induction cs generalizing n with
    | nil =>
      cases n with
      | zero => exact ⟨[], [], rfl, rfl⟩
      | succ n => simp [isBoundary] at h
    | cons c cs ih =>
      cases n with
      | zero => exact ⟨[], c :: cs, rfl, rfl⟩
      | succ n =>
        simp only [isBoundary, Bool.and_eq_true, decide_eq_true_eq] at h
        obtain ⟨p, r, rfl, hp⟩ := ih h.2
        exact ⟨c :: p, r, rfl, by rw [byteCount_cons, hp]; omega⟩
  · rintro ⟨p, r, rfl, rfl⟩
    exact isBoundary_byteCount p r

@[simp] theorem isBoundary_zero (cs : List Char) : isBoundary 0 cs = true := by
  cases cs <;> rfl

theorem le_byteCount_of_isBoundary (h : isBoundary n cs = true) : n ≤ byteCount cs := by
  obtain ⟨p, r, rfl, rfl⟩ := isBoundary_iff.mp h
  simp

theorem isBoundary_byteCount_self (cs : List Char) : isBoundary (byteCount cs) cs = true := by
  simpa using isBoundary_byteCount cs []

theorem exists_between (hab : a ≤ b) (ha : isBoundary a cs = true) (hb : isBoundary b cs = true) :
    ∃ p m r, cs = p ++ m ++ r ∧ byteCount p = a ∧ byteCount m = b - a := by
  obtain ⟨p, r, rfl, rfl⟩ := isBoundary_iff.mp ha
  obtain ⟨q, t, hq, rfl⟩ := isBoundary_iff.mp hb
  rcases List.append_eq_append_iff.mp hq with ⟨m, rfl, rfl⟩ | ⟨m, rfl, rfl⟩
  · exact ⟨p, m, t, by simp, rfl, by simp⟩
  · -- the later boundary cannot end before the earlier one
    have hm : m = [] := byteCount_eq_zero.mp (by simp at hab; omega)
    subst hm
    exact ⟨q, [], r, by simp, by simp, by simp⟩

theorem slice_of_isBoundary (hab : a ≤ b) (ha : isBoundary a cs = true)
    (hb : isBoundary b cs = true) : ∃ p r, cs = p ++ slice cs a b ++ r ∧ byteCount p = a ∧
      byteCount (slice cs a b) = b - a := by
  obtain ⟨p, m, r, rfl, rfl, hm⟩ := exists_between hab ha hb
  have hslice : slice (p ++ m ++ r) (byteCount p) b = m := by
    rw [show b = byteCount p + byteCount m by omega, slice_eq]
  exact ⟨p, r, by rw [hslice], rfl, by rw [hslice, hm]⟩

def slice? (cs : List Char) (a b : Nat) : Option (List Char) :=
  if a ≤ b ∧ isBoundary a cs = true ∧ isBoundary b cs = true then some (slice cs a b) else none

theorem slice?_of_isBoundary (hab : a ≤ b) (ha : isBoundary a cs = true)
    (hb : isBoundary b cs = true) : slice? cs a b = some (slice cs a b) :=
  if_pos ⟨hab, ha, hb⟩

theorem slice?_of_not_isBoundary (ha : isBoundary a cs = false) : slice? cs a b = none :=
  if_neg fun h => by simp [ha] at h

theorem length_encodeChar (c : Char) : (encodeChar c).length = c.utf8Size := by
  simp only [encodeChar, Char.utf8Size, Char.toNat, UInt32.le_iff_toNat_le, UInt32.toNat_ofNatLT]
  split_ifs <;> simp <;> omega

theorem length_flatMap_encodeChar (cs : List Char) :
    (cs.flatMap encodeChar).length = byteCount cs := by
  induction cs with
  | nil => rfl
  | cons c cs ih => simp [length_encodeChar, ih]

theorem encode_ofList (cs : List Char) : encode (String.ofList cs) = cs.flatMap encodeChar := by
  simp [encode]

theorem flatMap_slice (hab : a ≤ b) (ha : isBoundary a cs = true) (hb : isBoundary b cs = true) :
    (slice cs a b).flatMap encodeChar = ((cs.flatMap encodeChar).drop a).take (b - a) := by
  obtain ⟨p, r, hcs, hp, hm⟩ := slice_of_isBoundary hab ha hb
  conv_rhs => rw [hcs]
  have hpl : (p.flatMap encodeChar).length = a := by rw [length_flatMap_encodeChar, hp]
  have hml : ((slice cs a b).flatMap encodeChar).length = b - a := by
    rw [length_flatMap_encodeChar, hm]
  rw [List.flatMap_append, List.flatMap_append, List.append_assoc, List.drop_left' hpl,
    List.take_left' hml]

theorem flatMap_slice_end (ha : isBoundary a cs = true) :
    (slice cs a (byteCount cs)).flatMap encodeChar = (cs.flatMap encodeChar).drop a := by
  rw [flatMap_slice (le_byteCount_of_isBoundary ha) ha (isBoundary_byteCount_self cs)]
  apply List.take_of_length_le
  rw [List.length_drop, length_flatMap_encodeChar]

end Utf8

namespace Splice

variable {code : List Char} {len cursor : Nat} {resolve : String → Option Address}
  {st : List Char × Nat} {imp : SourceImport}

def spanStep? (code : List Char) (len : Nat) (resolve : String → Option Address)
    (st : List Char × Nat) (imp : SourceImport) : Option (List Char × Nat) :=
  let (out, cursor) := st
  match resolve imp.location with
  | none => some st
  | some a =>
    let s := imp.span.start.offset
    let e := imp.span.stop.offset
    if s < cursor || e > len then some st
    else (Utf8.slice? code cursor s).map fun gap => (out ++ gap ++ a.literal.toList, e)

theorem spanStep?_eq_some (hc : Utf8.isBoundary st.2 code = true)
    (hs : Utf8.isBoundary imp.span.start.offset code = true) :
    spanStep? code len resolve st imp = some (spanStep code len resolve st imp) := by
  obtain ⟨out, cursor⟩ := st
  simp only [spanStep?, spanStep]
  cases resolve imp.location with
  | none => rfl
  | some a =>
    simp only
    split
    case isTrue => rfl
    case isFalse h =>
      have hle : cursor ≤ imp.span.start.offset := by simp at h; omega
      rw [Utf8.slice?_of_isBoundary hle hc hs]
      rfl

theorem isBoundary_spanStep (hc : Utf8.isBoundary st.2 code = true)
    (he : Utf8.isBoundary imp.span.stop.offset code = true) :
    Utf8.isBoundary (spanStep code len resolve st imp).2 code = true := by
  obtain ⟨out, cursor⟩ := st
  simp only [spanStep]
  cases resolve imp.location with
  | none => exact hc
  | some a =>
    simp only
    split
    case isTrue => exact hc
    case isFalse => exact he

theorem foldlM_spanStep? (len : Nat) (resolve : String → Option Address)
    {is : List SourceImport} (st : List Char × Nat)
    (hb : ∀ i ∈ is, Utf8.isBoundary i.span.start.offset code = true ∧
      Utf8.isBoundary i.span.stop.offset code = true)
    (hc : Utf8.isBoundary st.2 code = true) :
    is.foldlM (spanStep? code len resolve) st = some (is.foldl (spanStep code len resolve) st) ∧
      Utf8.isBoundary (is.foldl (spanStep code len resolve) st).2 code = true := by
  induction is generalizing st with
  | nil => exact ⟨rfl, hc⟩
  | cons i is ih =>
    have hi := hb i List.mem_cons_self
    have hnext : Utf8.isBoundary (spanStep code len resolve st i).2 code = true :=
      isBoundary_spanStep hc hi.2
    obtain ⟨hrun, hend⟩ := ih _ (fun j hj => hb j (List.mem_cons_of_mem _ hj)) hnext
    refine ⟨?_, hend⟩
    rw [List.foldlM_cons, spanStep?_eq_some hc hi.1, Option.bind_eq_bind, Option.bind_some]
    exact hrun

-- The imports that substitution at spans replaces, with their addresses, taking `ordered` in turn
-- with the code before byte `cursor` written: a resolved import is replaced when it starts at or
-- after the end of the last one replaced and ends within the code.
def replaced (len : Nat) (resolve : String → Option Address) (cursor : Nat) :
    List SourceImport → List (SourceImport × Address)
  | [] => []
  | i :: is =>
    match resolve i.location with
    | some a =>
      if cursor ≤ i.span.start.offset ∧ i.span.stop.offset ≤ len then
        (i, a) :: replaced len resolve i.span.stop.offset is
      else replaced len resolve cursor is
    | none => replaced len resolve cursor is

-- The bytes `bs` from `cursor` on, with the bytes from `s` to `e` given as `lit` for each `(s, e,
-- lit)` in turn.
def spliceBytes (bs : List Nat) (cursor : Nat) : List (Nat × Nat × List Nat) → List Nat
  | [] => bs.drop cursor
  | (s, e, lit) :: rest => (bs.drop cursor).take (s - cursor) ++ lit ++ spliceBytes bs e rest

def literalRanges (ks : List (SourceImport × Address)) : List (Nat × Nat × List Nat) :=
  ks.map fun k => (k.1.span.start.offset, k.1.span.stop.offset, Utf8.encode k.2.literal)

-- The run of steps from a cursor on a boundary, with the rest of the code after it, writes
-- the bytes of the code spliced at the imports replaced.
theorem flatMap_foldl_spanStep (resolve : String → Option Address) {is : List SourceImport}
    (hb : ∀ i ∈ is, Utf8.isBoundary i.span.start.offset code = true ∧
      Utf8.isBoundary i.span.stop.offset code = true)
    (hc : Utf8.isBoundary cursor code = true) (out : List Char) :
    ((is.foldl (spanStep code (Utf8.byteCount code) resolve) (out, cursor)).1 ++
        Utf8.slice code (is.foldl (spanStep code (Utf8.byteCount code) resolve) (out, cursor)).2
          (Utf8.byteCount code)).flatMap Utf8.encodeChar =
      out.flatMap Utf8.encodeChar ++ spliceBytes (code.flatMap Utf8.encodeChar) cursor
        (literalRanges (replaced (Utf8.byteCount code) resolve cursor is)) := by
  induction is generalizing out cursor with
  | nil => simp [replaced, literalRanges, spliceBytes, Utf8.flatMap_slice_end hc]
  | cons i is ih =>
    have hi := hb i List.mem_cons_self
    have hrest := fun j hj => hb j (List.mem_cons_of_mem i hj)
    rw [List.foldl_cons]
    cases hr : resolve i.location with
    | none =>
      rw [spanStep_of_unresolved hr, ih hrest hc out]
      simp [replaced, hr]
    | some a =>
      by_cases hin : cursor ≤ i.span.start.offset ∧ i.span.stop.offset ≤ Utf8.byteCount code
      case pos =>
        -- replaced: the code up to the import is written, then its address
        rw [spanStep_of_fits hr hin, ih hrest hi.2]
        simp [replaced, hr, hin, literalRanges, spliceBytes, Utf8.flatMap_slice hin.1 hc hi.1,
          Utf8.encode]
      case neg =>
        rw [spanStep_of_not_fits hr hin, ih hrest hc out]
        simp [replaced, hr, hin]

theorem pairwise_replaced {is : List SourceImport}
    (hle : ∀ i ∈ is, i.span.start.offset ≤ i.span.stop.offset) (hc : cursor ≤ len) :
    (cursor :: ((replaced len resolve cursor is).flatMap
      (fun k => [k.1.span.start.offset, k.1.span.stop.offset]) ++ [len])).Pairwise (· ≤ ·) := by
  induction is generalizing cursor with
  | nil => simpa [replaced] using hc
  | cons i is ih =>
    have hrest := fun j hj => hle j (List.mem_cons_of_mem i hj)
    cases hr : resolve i.location with
    | none => simpa [replaced, hr] using ih hrest hc
    | some a =>
      by_cases hin : cursor ≤ i.span.start.offset ∧ i.span.stop.offset ≤ len
      case pos =>
        have htail := ih hrest hin.2
        simp only [replaced, hr, if_pos hin, List.flatMap_cons, List.cons_append, List.nil_append]
        exact .cons_cons_of_trans hin.1 (.cons_cons_of_trans (hle i List.mem_cons_self) htail)
      case neg => simpa [replaced, hr, hin] using ih hrest hc

end Splice

-- The code with the literal of each resolved import replaced at its span, slicing as a string slice
-- does: `none` where a slice fails.
def substituteSpans? (code : String) (imports : List SourceImport)
    (resolve : String → Option Address) : Option String := do
  let cs := code.toList
  let len := code.utf8ByteSize
  let ordered := imports.mergeSort fun a b => a.span.start.offset ≤ b.span.start.offset
  let (out, cursor) ← ordered.foldlM (Splice.spanStep? cs len resolve) ([], 0)
  let rest ← Utf8.slice? cs cursor len
  return String.ofList (out ++ rest)

theorem substituteSpans?_eq_some {code : String} {imports : List SourceImport}
    {resolve : String → Option Address}
    (hb : ∀ i ∈ imports, Utf8.isBoundary i.span.start.offset code.toList = true ∧
      Utf8.isBoundary i.span.stop.offset code.toList = true) :
    substituteSpans? code imports resolve = some (substituteSpans code imports resolve) := by
  replace hb : ∀ i ∈ imports.mergeSort (fun a b => a.span.start.offset ≤ b.span.start.offset),
      Utf8.isBoundary i.span.start.offset code.toList = true ∧
        Utf8.isBoundary i.span.stop.offset code.toList = true :=
    fun i hi => hb i (List.mem_mergeSort.mp hi)
  rw [substituteSpans?, substituteSpans, Utf8.utf8ByteSize_eq]
  generalize imports.mergeSort (fun a b => a.span.start.offset ≤ b.span.start.offset) = ordered
    at hb ⊢
  obtain ⟨hrun, hend⟩ :=
    Splice.foldlM_spanStep? (Utf8.byteCount code.toList) resolve ([], 0) hb (Utf8.isBoundary_zero _)
  have hrest := Utf8.slice?_of_isBoundary (Utf8.le_byteCount_of_isBoundary hend) hend
    (Utf8.isBoundary_byteCount_self code.toList)
  simp only [hrun, hrest, Option.bind_eq_bind, Option.bind_some, Option.pure_def]

def insideChar : SourceImport := ⟨"x", ⟨⟨1, 2, 1⟩, ⟨1, 2, 1⟩⟩⟩

-- Slicing the code up to the span of `insideChar` would cut `é` in two.
theorem substituteSpans?_inside_char :
    substituteSpans? "é" [insideChar] (fun _ => some ⟨1⟩) = none := by
  decide +kernel

-- Substituting at spans whose offsets all lie on character boundaries of the code: no slice
-- fails, and the bytes written are those of the code with the range of each import replaced
-- given as its address literal, the imports taken in the stable order of their starts. When
-- no span runs backwards, those ranges follow one another within the code.
theorem substituteSpans_at_boundaries {code : String} {imports : List SourceImport}
    {resolve : String → Option Address}
    (hb : ∀ i ∈ imports, Utf8.isBoundary i.span.start.offset code.toList = true ∧
      Utf8.isBoundary i.span.stop.offset code.toList = true) :
    substituteSpans? code imports resolve = some (substituteSpans code imports resolve) ∧
      ∀ ordered, StablyOrdered (·.span.start.offset) imports ordered →
        Utf8.encode (substituteSpans code imports resolve) =
            Splice.spliceBytes (Utf8.encode code) 0
              (Splice.literalRanges (Splice.replaced code.utf8ByteSize resolve 0 ordered)) ∧
          ((∀ i ∈ imports, i.span.start.offset ≤ i.span.stop.offset) →
            (0 :: ((Splice.replaced code.utf8ByteSize resolve 0 ordered).flatMap
              (fun k => [k.1.span.start.offset, k.1.span.stop.offset]) ++
                [code.utf8ByteSize])).Pairwise (· ≤ ·)) := by
  refine ⟨substituteSpans?_eq_some hb, fun ordered ho => ⟨?_, fun hle => ?_⟩⟩
  · -- the stable order is the one merge sort gives
    have hmerge : ordered = imports.mergeSort fun a b => a.span.start.offset ≤ b.span.start.offset :=
      ho.unique (stablyOrdered_mergeSort imports)
    have hbytes := Splice.flatMap_foldl_spanStep resolve (fun i hi => hb i (ho.perm.mem_iff.mp hi))
      (Utf8.isBoundary_zero _) []
    rw [substituteSpans, ← hmerge, Utf8.encode_ofList, Utf8.utf8ByteSize_eq, hbytes]
    simp [Utf8.encode]
  · exact Splice.pairwise_replaced (fun i hi => hle i (ho.perm.mem_iff.mp hi)) (Nat.zero_le _)

-- Two overlapping spans given out of order. Taken by their starts, the span at `x` is replaced;
-- the span at `y` starts before `x` ends, so it is left.
def overlapping : List SourceImport := [⟨"y", ⟨⟨1, 4, 3⟩, ⟨1, 6, 5⟩⟩⟩, ⟨"x", ⟨⟨1, 2, 1⟩, ⟨1, 5, 4⟩⟩⟩]

def overlappingAddress (L : String) : Option Address := if L = "x" then some ⟨1⟩ else some ⟨2⟩

theorem substituteSpans_at_boundaries_overlapping :
    (∀ i ∈ overlapping, Utf8.isBoundary i.span.start.offset "abcdef".toList = true ∧
        Utf8.isBoundary i.span.stop.offset "abcdef".toList = true) ∧
      substituteSpans "abcdef" overlapping overlappingAddress = "a0x0000000000000001ef" ∧
      substituteSpans? "abcdef" overlapping overlappingAddress =
          some (substituteSpans "abcdef" overlapping overlappingAddress) ∧
        ∀ ordered, StablyOrdered (·.span.start.offset) overlapping ordered →
          Utf8.encode (substituteSpans "abcdef" overlapping overlappingAddress) =
              Splice.spliceBytes (Utf8.encode "abcdef") 0 (Splice.literalRanges
                (Splice.replaced "abcdef".utf8ByteSize overlappingAddress 0 ordered)) ∧
            ((∀ i ∈ overlapping, i.span.start.offset ≤ i.span.stop.offset) →
              (0 :: ((Splice.replaced "abcdef".utf8ByteSize overlappingAddress 0
                ordered).flatMap (fun k => [k.1.span.start.offset, k.1.span.stop.offset]) ++
                  ["abcdef".utf8ByteSize])).Pairwise (· ≤ ·)) := by
  have hb : ∀ i ∈ overlapping, Utf8.isBoundary i.span.start.offset "abcdef".toList = true ∧
      Utf8.isBoundary i.span.stop.offset "abcdef".toList = true := by
    decide +kernel
  have hout : substituteSpans "abcdef" overlapping overlappingAddress = "a0x0000000000000001ef" := by
    simp only [substituteSpans, mergeSort_key_eq_insertionSort]
    decide +kernel
  exact ⟨hb, hout, substituteSpans_at_boundaries hb⟩

end ContractDeploy
