/-!
# Tables keyed by text

A `Table α` maps text keys to values and keeps its entries in ascending key order, one entry per
key. Dependencies, aliases and parsed configuration are tables, and every listing of them (the
order in which import literals are replaced, the order of graph edges, the lines of a written
configuration) is the order of the keys.

`insert` replaces the value of a present key and puts a new key in its place, `erase` drops a
key, `find?` looks one up. The lemmas below say what each does to `find?`.
-/

namespace ContractDeploy

structure Table (α : Type) where
  entries : List (String × α)
  sorted : (entries.map (·.1)).Pairwise (· < ·)

namespace Table

variable {α : Type}

def empty : Table α := ⟨[], .nil⟩

instance : EmptyCollection (Table α) := ⟨empty⟩

instance : Inhabited (Table α) := ⟨empty⟩

def insertEntry (k : String) (v : α) : List (String × α) → List (String × α)
  | [] => [(k, v)]
  | (k', v') :: rest =>
    if k < k' then (k, v) :: (k', v') :: rest
    else if k = k' then (k, v) :: rest
    else (k', v') :: insertEntry k v rest

theorem mem_insertEntry {k : String} {v : α} {e : String × α} {l : List (String × α)}
    (h : e ∈ insertEntry k v l) : e = (k, v) ∨ e ∈ l := by
  induction l
  case nil => simpa [insertEntry] using h
  case cons e' rest ih =>
    simp only [insertEntry] at h
    split at h
    · simpa using h
    · split at h
      · rcases List.mem_cons.mp h with h | h
        · exact .inl h
        · exact .inr (List.mem_cons_of_mem _ h)
      · rcases List.mem_cons.mp h with h | h
        · exact .inr (h ▸ List.mem_cons_self ..)
        · exact (ih h).imp_right (List.mem_cons_of_mem _)

theorem pairwise_insertEntry {k : String} {v : α} {l : List (String × α)}
    (h : (l.map (·.1)).Pairwise (· < ·)) : ((insertEntry k v l).map (·.1)).Pairwise (· < ·) := by
  induction l with
  | nil => simp [insertEntry]
  | cons e rest ih =>
    obtain ⟨k', v'⟩ := e
    simp only [List.map_cons, List.pairwise_cons] at h
    obtain ⟨hlt, hrest⟩ := h
    simp only [insertEntry]
    split
    case isTrue hk =>
      simp only [List.map_cons, List.pairwise_cons, List.mem_cons]
      refine ⟨?_, hlt, hrest⟩
      rintro k'' (rfl | hk'')
      · exact hk
      · exact String.lt_trans hk (hlt k'' hk'')
    case isFalse hk =>
      split
      case isTrue he =>
        subst he
        simp only [List.map_cons, List.pairwise_cons]
        exact ⟨hlt, hrest⟩
      case isFalse he =>
        -- the key goes further on, after `k'`
        have hk' : k' < k := Decidable.byContradiction fun hk' =>
          he (String.le_antisymm (String.not_lt.mp hk') (String.not_lt.mp hk))
        simp only [List.map_cons, List.pairwise_cons]
        refine ⟨fun k'' hk'' => ?_, ih hrest⟩
        obtain ⟨e, he, rfl⟩ := List.mem_map.mp hk''
        rcases mem_insertEntry he with rfl | he
        · exact hk'
        · exact hlt _ (List.mem_map_of_mem he)

def insert (t : Table α) (k : String) (v : α) : Table α :=
  ⟨insertEntry k v t.entries, pairwise_insertEntry t.sorted⟩

def erase (t : Table α) (k : String) : Table α :=
  ⟨t.entries.filter (fun e => e.1 != k), t.sorted.sublist (List.filter_sublist.map _)⟩

def find? (t : Table α) (k : String) : Option α := (t.entries.find? (fun e => e.1 == k)).map (·.2)

def contains (t : Table α) (k : String) : Bool := (t.find? k).isSome

def toList (t : Table α) : List (String × α) := t.entries

def keys (t : Table α) : List String := t.entries.map (·.1)

def size (t : Table α) : Nat := t.entries.length

def isEmpty (t : Table α) : Bool := t.entries.isEmpty

def ofList (l : List (String × α)) : Table α := l.foldl (fun t e => t.insert e.1 e.2) empty

def map {β : Type} (f : α → β) (t : Table α) : Table β :=
  ⟨t.entries.map (fun e => (e.1, f e.2)), by rw [List.map_map]; exact t.sorted⟩

def mapEntries? {β ε : Type} (f : String → α → Except ε β) :
    (l : List (String × α)) → Except ε { l' : List (String × β) // l'.map (·.1) = l.map (·.1) }
  | [] => .ok ⟨[], rfl⟩
  | (k, v) :: rest => do
    let b ← f k v
    let r ← mapEntries? f rest
    return ⟨(k, b) :: r.1, by rw [List.map_cons, List.map_cons, r.2]⟩

def mapM? {β ε : Type} (f : String → α → Except ε β) (t : Table α) : Except ε (Table β) :=
  (mapEntries? f t.entries).map fun r => ⟨r.1, by rw [r.2]; exact t.sorted⟩

theorem find?_insertEntry_self (k : String) (v : α) (l : List (String × α)) :
    ((insertEntry k v l).find? (fun e => e.1 == k)).map (·.2) = some v := by
  induction l with
  | nil => simp [insertEntry]
  | cons e rest ih =>
    obtain ⟨k', v'⟩ := e
    unfold insertEntry
    split
    · rw [List.find?_cons_of_pos (by simp)]; rfl
    · split
      · rw [List.find?_cons_of_pos (by simp)]; rfl
      · rename_i h2
        rw [List.find?_cons_of_neg (by simp only [beq_iff_eq]; exact fun h => h2 h.symm)]
        exact ih

theorem find?_insertEntry_of_ne {k j : String} (v : α) (l : List (String × α)) (h : j ≠ k) :
    ((insertEntry k v l).find? (fun e => e.1 == j)).map (·.2)
      = (l.find? (fun e => e.1 == j)).map (·.2) := by
  have hkj : (k == j) = false := by simp only [beq_eq_false_iff_ne]; exact fun e => h e.symm
  induction l with
  | nil => simp only [insertEntry, List.find?_cons, hkj, List.find?_nil]
  | cons e rest ih =>
    obtain ⟨k', v'⟩ := e
    unfold insertEntry
    split
    · simp only [List.find?_cons, hkj]
    · split
      · rename_i _ hk
        subst hk
        simp only [List.find?_cons, hkj]
      · cases hb : (k' == j)
        · simp only [List.find?_cons, hb]
          exact ih
        · simp only [List.find?_cons, hb]

@[simp] theorem find?_insert_self (t : Table α) (k : String) (v : α) :
    (t.insert k v).find? k = some v :=
  find?_insertEntry_self k v t.entries

theorem find?_insert_of_ne (t : Table α) {k j : String} (v : α) (h : j ≠ k) :
    (t.insert k v).find? j = t.find? j :=
  find?_insertEntry_of_ne v t.entries h

@[simp] theorem find?_erase_self (t : Table α) (k : String) : (t.erase k).find? k = none := by
  simp [erase, find?, List.find?_filter]

theorem find?_erase_of_ne (t : Table α) {k j : String} (h : j ≠ k) :
    (t.erase k).find? j = t.find? j := by
  simp only [erase, find?]
  rw [List.find?_filter]
  congr 2
  funext e
  by_cases he : e.1 = j
  · simp [he, h]
  · simp [he]

@[simp] theorem find?_empty (k : String) : (empty : Table α).find? k = none := rfl

example : ((empty : Table Nat).insert "b" 1 |>.insert "a" 2 |>.insert "b" 3).keys = ["a", "b"] := by
  decide

end Table

end ContractDeploy
