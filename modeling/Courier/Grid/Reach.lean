import Courier.Grid.World

namespace Courier

/-- An undirected graph over cells. -/
structure CellGraph where
  nodes : List Cell
  /-- The nodes that edges join to a node. -/
  next : Cell → List Cell
  closed : ∀ c ∈ nodes, ∀ d ∈ next c, d ∈ nodes
  symm : ∀ c ∈ nodes, ∀ d ∈ next c, c ∈ next d

/-- What is asked of a library of graph algorithms about two nodes of a graph. -/
structure PathFinder where
  /-- The nodes that paths from a node lead to. -/
  component : CellGraph → Cell → List Cell
  /-- The fewest edges of a path between two nodes, if there is a path. -/
  distance? : CellGraph → Cell → Cell → Option Nat

namespace CellGraph

/-- The unseen nodes one edge from a layer. -/
def nextLayer (g : CellGraph) (seen layer : List Cell) : List Cell :=
  ((layer.flatMap g.next).filter (fun c => !seen.contains c)).eraseDups

def layersFrom (g : CellGraph) : Nat → List Cell → List Cell → List (List Cell)
  | 0, _, _ => []
  | fuel+1, seen, layer =>
    if layer.isEmpty then []
    else
      let seen := layer ++ seen
      layer :: layersFrom g fuel seen (g.nextLayer seen layer)

/-- The nodes that paths from a start lead to, by their distance. -/
def layers (g : CellGraph) (start : Cell) : List (List Cell) :=
  g.layersFrom (g.nodes.length+1) [] [start]

end CellGraph

/-- The search layer by layer. -/
def PathFinder.layered : PathFinder where
  component g start := (g.layers start).flatten
  distance? g start goal := (g.layers start).findIdx? (·.contains goal)

namespace World

/-- The cells beside a cell that the agent may stand on. -/
def exits (w : World) (c : Cell) : List Cell :=
  (beside c).filter w.canEnter

def standable (w : World) : List Cell := w.cells.filter w.canEnter

/-- The pairs of such cells beside each other, each pair once. -/
def passages (w : World) : List (Cell × Cell) :=
  w.standable.flatMap (fun c =>
    ([(c.1, c.2+1), (c.1+1, c.2)].filter w.canEnter).map (c, ·))

section Cells

variable {w : World} {c d : Cell}

theorem canEnter_of_exits (h : d ∈ w.exits c) : w.canEnter d := (List.mem_filter.mp h).2

theorem mem_beside_symm (h : d ∈ beside c) : c ∈ beside d := by
  simp only [beside, List.mem_cons, List.not_mem_nil, or_false, Prod.ext_iff] at h ⊢
  omega

theorem exits_symm (hc : w.canEnter c) (h : d ∈ w.exits c) : c ∈ w.exits d :=
  List.mem_filter.mpr ⟨mem_beside_symm (List.mem_filter.mp h).1, hc⟩

theorem mem_cells : c ∈ w.cells ↔ w.inBounds c := by
  obtain ⟨x, y⟩ := c
  simp only [cells, List.mem_flatMap, List.mem_map, List.mem_range, inBounds, Bool.and_eq_true,
    decide_eq_true_eq, Prod.mk.injEq]
  constructor
  · rintro ⟨i, hi, j, hj, rfl, rfl⟩
    omega
  · intro h
    exact ⟨x.toNat, by omega, y.toNat, by omega, by omega, by omega⟩

theorem mem_standable : c ∈ w.standable ↔ w.canEnter c := by
  rw [standable, List.mem_filter, mem_cells]
  exact ⟨And.right, fun h => ⟨inBounds_of_canEnter h, h⟩⟩

end Cells

/-- The cells that the agent may stand on, joined to those beside them. -/
def graph (w : World) : CellGraph where
  nodes := w.standable
  next := w.exits
  closed _ _ _ hd := mem_standable.mpr (canEnter_of_exits hd)
  symm _ hc _ hd := exits_symm (mem_standable.mp hc) hd

/-- The least number of moves between two cells, if the graph holds both and moves lead there. -/
def distanceBy? (f : PathFinder) (w : World) (start goal : Cell) : Option Nat :=
  if w.graph.nodes.contains start && w.graph.nodes.contains goal then
    f.distance? w.graph start goal
  else none

def reachableBy (f : PathFinder) (w : World) (start : Cell) : List Cell :=
  if w.graph.nodes.contains start then f.component w.graph start else []

/-- Whether some pickup and some dropoff have reachable cells beside them. -/
def isSolvableBy (f : PathFinder) (w : World) (start : Cell) : Bool :=
  let cs := w.reachableBy f start
  cs.any (w.isBeside · .pickup) && cs.any (w.isBeside · .dropoff)

def distance? (w : World) (start goal : Cell) : Option Nat := w.distanceBy? .layered start goal

def isSolvable (w : World) (start : Cell) : Bool := w.isSolvableBy .layered start

end World

end Courier
