import ContractDeploy.Graph
import Mathlib.Logic.Relation
import Mathlib.Data.List.Nodup

namespace ContractDeploy.Graph

variable {g : Graph}

-- An edge runs from node `i` to node `j`; `Adj` counts an edge added twice once.
def Adj (g : Graph) (i j : Nat) : Prop := (i, j) ∈ g.edges.toList

-- Every edge runs between nodes of the graph, as `addEdge` keeps it.
def Closed (g : Graph) : Prop := ∀ e ∈ g.edges.toList, e.1 < g.size ∧ e.2 < g.size

def Acyclic (g : Graph) : Prop := ∀ i, ¬Relation.TransGen g.Adj i i

-- No two nodes carry the same label.
def Distinct (g : Graph) : Prop := g.labels.toList.Nodup

theorem Closed.left (hc : g.Closed) (h : g.Adj i j) : i < g.size := (hc _ h).left

theorem Closed.right (hc : g.Closed) (h : g.Adj i j) : j < g.size := (hc _ h).right

theorem Closed.transGen_left (hc : g.Closed) (h : Relation.TransGen g.Adj i j) : i < g.size := by
  induction h
  case single h => exact hc.left h
  case tail ih => exact ih

theorem Distinct.label_inj (hd : g.Distinct) (hi : i < g.size) (hj : j < g.size)
    (h : g.label i = g.label j) : i = j := by
  simp only [label, Array.getElem?_eq_getElem hi, Array.getElem?_eq_getElem hj,
    Option.getD_some] at h
  have hi' : i < g.labels.toList.length := by simpa [size] using hi
  have hj' : j < g.labels.toList.length := by simpa [size] using hj
  exact hd.getElem_inj_iff.mp (by rw [Array.getElem_toList, Array.getElem_toList]; exact h)

-- Each of `successors`, `predecessors` and `inDegrees` is one fold over the edges that updates
-- the entry of one endpoint.
private theorem foldl_modify_cons (es : List (Nat × Nat)) (key val : Nat × Nat → Nat)
    (init : Array (List Nat)) (h : i < init.size) :
    (es.foldl (fun acc e => acc.modify (key e) (val e :: ·)) init)[i]? =
      some (((es.filter (key · == i)).map val).reverse ++ init[i]) := by
  induction es generalizing init with
  | nil => simp [h]
  | cons e es ih =>
    rw [List.foldl_cons, ih _ (by simpa using h)]
    by_cases he : key e = i
    · simp [he, Array.getElem_modify]
    · simp [he, Array.getElem_modify]

private theorem foldl_modify_succ (es : List (Nat × Nat)) (init : Array Nat) (h : j < init.size) :
    (es.foldl (fun acc e => acc.modify e.2 (· + 1)) init)[j]? =
      some (es.countP (·.2 == j) + init[j]) := by
  induction es generalizing init with
  | nil => simp [h]
  | cons e es ih =>
    rw [List.foldl_cons, ih _ (by simpa using h)]
    by_cases he : e.2 = j
    · simp [he, Array.getElem_modify]; omega
    · simp [he, Array.getElem_modify]

private theorem size_foldl_modify_cons (es : List (Nat × Nat)) (key val : Nat × Nat → Nat)
    (init : Array (List Nat)) :
    (es.foldl (fun acc e => acc.modify (key e) (val e :: ·)) init).size = init.size := by
  induction es generalizing init with
  | nil => rfl
  | cons e es ih => rw [List.foldl_cons, ih, Array.size_modify]

@[simp] theorem size_successors : g.successors.size = g.size := by
  rw [successors, ← Array.foldl_toList, size_foldl_modify_cons g.edges.toList (·.1) (·.2)]
  simp

@[simp] theorem size_predecessors : g.predecessors.size = g.size := by
  rw [predecessors, ← Array.foldl_toList, size_foldl_modify_cons g.edges.toList (·.2) (·.1)]
  simp

theorem successors_eq (h : i < g.size) :
    g.successors[i]?.getD [] = ((g.edges.toList.filter (·.1 == i)).map (·.2)).reverse := by
  have := foldl_modify_cons g.edges.toList (·.1) (·.2) (Array.replicate g.size [])
    (show i < (Array.replicate g.size []).size by simpa using h)
  rw [successors, ← Array.foldl_toList, this]
  simp

theorem predecessors_eq (h : j < g.size) :
    g.predecessors[j]?.getD [] = ((g.edges.toList.filter (·.2 == j)).map (·.1)).reverse := by
  have := foldl_modify_cons g.edges.toList (·.2) (·.1) (Array.replicate g.size [])
    (show j < (Array.replicate g.size []).size by simpa using h)
  rw [predecessors, ← Array.foldl_toList, this]
  simp

theorem mem_successors (h : i < g.size) : j ∈ g.successors[i]?.getD [] ↔ g.Adj i j := by
  simp [successors_eq h, Adj]

theorem mem_predecessors (h : j < g.size) : i ∈ g.predecessors[j]?.getD [] ↔ g.Adj i j := by
  simp [predecessors_eq h, Adj]

theorem count_successors (h : i < g.size) :
    (g.successors[i]?.getD []).count j = g.edges.toList.count (i, j) := by
  rw [successors_eq h, List.count_reverse, List.count_eq_countP, List.count_eq_countP,
    List.countP_map, List.countP_filter]
  congr 1
  funext e
  obtain ⟨a, b⟩ := e
  by_cases ha : a = i <;> by_cases hb : b = j <;> grind

theorem getElem?_inDegrees (h : j < g.size) :
    g.inDegrees[j]? = some (g.edges.toList.countP (·.2 == j)) := by
  have := foldl_modify_succ g.edges.toList (Array.replicate g.size 0)
    (show j < (Array.replicate g.size 0).size by simpa using h)
  rw [inDegrees, ← Array.foldl_toList, this]
  simp

@[simp] theorem size_inDegrees : g.inDegrees.size = g.size := by
  suffices ∀ (es : List (Nat × Nat)) (init : Array Nat),
      (es.foldl (fun acc e => acc.modify e.2 (· + 1)) init).size = init.size by
    rw [inDegrees, ← Array.foldl_toList, this]
    simp
  intro es
  induction es <;> simp_all

-- Lists of the targets of each node's edges, as the graph library gives a node's outgoing
-- neighbours: a target once for every edge to it, in any order.
def OutNeighbours (g : Graph) (succ : Array (List Nat)) : Prop :=
  ∀ i < g.size, ∀ j, (succ[i]?.getD []).count j = g.edges.toList.count (i, j)

-- The number of edges into each node, as counting the node's incoming edges gives it.
structure InDegreeCounts (g : Graph) (deg : Array Nat) : Prop where
  size : deg.size = g.size
  getElem? : ∀ j < g.size, deg[j]? = some (g.edges.toList.countP (·.2 == j))

theorem OutNeighbours.mem (hs : g.OutNeighbours succ) (hi : i < g.size) :
    j ∈ succ[i]?.getD [] ↔ g.Adj i j := by
  rw [← List.count_pos_iff, hs i hi j, List.count_pos_iff]
  rfl

theorem successors_spec : g.OutNeighbours g.successors := fun _ hi _ => count_successors hi

theorem inDegrees_spec : g.InDegreeCounts g.inDegrees :=
  ⟨size_inDegrees, fun _ hj => getElem?_inDegrees hj⟩

end ContractDeploy.Graph
