import Std.Data.TreeMap.Basic
/-!
# Dependency graphs

A dependency graph has nodes `0 … n-1`, each labelled by a distinct contract number, and
directed edges from a dependency to its dependent, kept in the order they were added (an edge
may be added twice, and may loop).

`Graph.order` is the deployment order: repeatedly, of the nodes not yet placed whose incoming
edges all come from placed nodes, the one with the least label. When every node is placed the
labels in that order are the answer. Otherwise the answer is the graph's cycles: its strongly
connected components with more than one node or with a loop, ordered by their least label.

The order reads three things off the graph: the targets of each node's edges, the number of
edges into each node, and the strongly connected components. `Graph.orderWith` takes them as
arguments; `Graph.order` gives it the graph's own `successors`, `inDegrees` and `components`.
-/

namespace ContractDeploy

-- The label of each node, the node of each label, and the edges `(from, to)` in the order they
-- were added.
structure Graph where
  labels : Array Nat
  nodeOf : Std.TreeMap Nat Nat
  edges : Array (Nat × Nat)

namespace Graph

def empty : Graph := ⟨#[], ∅, #[]⟩

instance : Inhabited Graph := ⟨empty⟩

def size (g : Graph) : Nat := g.labels.size

def indexOf? (g : Graph) (l : Nat) : Option Nat := g.nodeOf[l]?

def addNode (g : Graph) (l : Nat) : Graph × Nat :=
  match g.indexOf? l with
  | some i => (g, i)
  | none => (⟨g.labels.push l, g.nodeOf.insert l g.labels.size, g.edges⟩, g.labels.size)

def addEdge (g : Graph) (a b : Nat) : Graph :=
  let (g, i) := g.addNode a
  let (g, j) := g.addNode b
  ⟨g.labels, g.nodeOf, g.edges.push (i, j)⟩

def label (g : Graph) (i : Nat) : Nat := g.labels[i]?.getD 0

def successors (g : Graph) : Array (List Nat) :=
  g.edges.foldl (fun acc (i, j) => acc.modify i (j :: ·)) (Array.replicate g.size [])

def predecessors (g : Graph) : Array (List Nat) :=
  g.edges.foldl (fun acc (i, j) => acc.modify j (i :: ·)) (Array.replicate g.size [])

def inDegrees (g : Graph) : Array Nat :=
  g.edges.foldl (fun acc (_, j) => acc.modify j (· + 1)) (Array.replicate g.size 0)

def initialReady (g : Graph) (left : Array Nat) : Std.TreeMap Nat Nat :=
  (List.range g.size).foldl (fun ready i =>
    if left[i]?.getD 1 == 0 then ready.insert (g.label i) i else ready) ∅

def release (g : Graph) (st : Std.TreeMap Nat Nat × Array Nat) (j : Nat) :
    Std.TreeMap Nat Nat × Array Nat :=
  let (ready, left) := st
  let d := left[j]?.getD 0
  (if d == 1 then ready.insert (g.label j) j else ready, left.setIfInBounds j (d - 1))

/-- Places up to `fuel` more nodes, the ready node of least label first; `acc` holds the nodes
placed so far, reversed. -/
def place (g : Graph) (succ : Array (List Nat)) :
    Nat → Std.TreeMap Nat Nat → Array Nat → List Nat → List Nat
  | 0, _, _, acc => acc.reverse
  | fuel + 1, ready, left, acc =>
    match ready.minKey? with
    | none => acc.reverse
    | some l =>
      let i := ready.getD l 0
      let (ready, left) := (succ[i]?.getD []).foldl g.release (ready.erase l, left)
      g.place succ fuel ready left (i :: acc)

def placementWith (g : Graph) (succ : Array (List Nat)) (deg : Array Nat) : List Nat :=
  g.place succ g.size (g.initialReady deg) deg []

def placement (g : Graph) : List Nat := g.placementWith g.successors g.inDegrees

/-- Depth-first search along `next`, for at most `fuel` steps. The stack holds each open node
with the edges it has still to follow; a node is marked in `seen` when it is opened and put at
the front of `done` when it is closed. -/
def search (next : Array (List Nat)) :
    Nat → List (Nat × List Nat) → Array Bool → List Nat → Array Bool × List Nat
  | 0, _, seen, done => (seen, done)
  | _ + 1, [], seen, done => (seen, done)
  | fuel + 1, (v, []) :: stack, seen, done => search next fuel stack seen (v :: done)
  | fuel + 1, (v, w :: ws) :: stack, seen, done =>
    if seen[w]?.getD true then search next fuel ((v, ws) :: stack) seen done
    else search next fuel ((w, next[w]?.getD []) :: (v, ws) :: stack) (seen.setIfInBounds w true)
      done

def searchFrom (g : Graph) (next : Array (List Nat)) (v : Nat) (seen : Array Bool)
    (done : List Nat) : Array Bool × List Nat :=
  search next (g.size + g.edges.size + 1) [(v, next[v]?.getD [])] (seen.setIfInBounds v true) done

def finishOrder (g : Graph) : List Nat :=
  let succ := g.successors
  let st := (List.range g.size).foldl (fun st v =>
    if st.1[v]?.getD true then st else g.searchFrom succ v st.1 st.2)
    (Array.replicate g.size false, [])
  st.2.reverse

def ranks (size : Nat) (vs : List Nat) : Array Nat :=
  (vs.foldl (fun (r, k) v => (r.setIfInBounds v k, k + 1)) (Array.replicate size 0, 0)).1

/-- The strongly connected components: a search against the edges from each node in reverse
finish order collects one component, its nodes in finish order. -/
def components (g : Graph) : List (List Nat) :=
  let fin := g.finishOrder
  let rank := ranks g.size fin
  let pred := g.predecessors
  let (_, comps) := fin.reverse.foldl (fun (seen, comps) v =>
    if seen[v]?.getD true then (seen, comps)
    else
      let (seen, reached) := g.searchFrom pred v seen []
      (seen, (reached.mergeSort fun a b => rank[a]?.getD 0 ≤ rank[b]?.getD 0) :: comps))
    (Array.replicate g.size false, [])
  comps

def leastLabel (g : Graph) (c : List Nat) : Nat := (c.map g.label).foldl min (g.label (c.headD 0))

def cyclesOf (g : Graph) (comps : List (List Nat)) : List (List Nat) :=
  let kept := comps.filter fun c =>
    match c with
    | [v] => g.edges.toList.contains (v, v)
    | _ => c.length > 1
  (kept.mergeSort fun a b => g.leastLabel a ≤ g.leastLabel b).map (·.map g.label)

def cycles (g : Graph) : List (List Nat) := g.cyclesOf g.components

def orderWith (g : Graph) (succ : Array (List Nat)) (deg : Array Nat) (comps : List (List Nat)) :
    Except (List (List Nat)) (List Nat) :=
  let p := g.placementWith succ deg
  if p.length = g.size then .ok (p.map g.label) else .error (g.cyclesOf comps)

def order (g : Graph) : Except (List (List Nat)) (List Nat) :=
  g.orderWith g.successors g.inDegrees g.components

end Graph

end ContractDeploy
