import Courier.Grid.Kind

namespace Courier

abbrev Meta := Json.Members

structure World where
  width : Nat
  height : Nat
  /-- The kinds row by row from the bottom. -/
  kinds : Array Kind
  notes : List (Cell × Meta)
  width_pos : 0 < width
  height_pos : 0 < height
  size_eq : kinds.size = width*height

namespace World

/-- The world with kind `f i j` at column `i` of row `j`. -/
def ofFn (width height : Nat) (f : Nat → Nat → Kind) (notes : List (Cell × Meta))
    (hw : 0 < width) (hh : 0 < height) : World where
  width := width
  height := height
  kinds := Array.ofFn (n := width*height) (fun n => f (n.val % width) (n.val / width))
  notes := notes
  width_pos := hw
  height_pos := hh
  size_eq := by simp

def inBounds (w : World) (c : Cell) : Bool :=
  0 ≤ c.1 && c.1 < w.width && 0 ≤ c.2 && c.2 < w.height

def kindAt? (w : World) (c : Cell) : Option Kind :=
  if w.inBounds c then w.kinds[c.2.toNat*w.width + c.1.toNat]? else none

def noteAt? (w : World) (c : Cell) : Option Meta :=
  (w.notes.find? (·.1 = c)).map (·.2)

def cellAt? (w : World) (c : Cell) : Option (Kind × Meta) :=
  (w.kindAt? c).map (fun k => (k, (w.noteAt? c).getD []))

def isWall (w : World) (c : Cell) : Bool := w.kindAt? c = some .wall

/-- Whether the agent may stand on a cell: inside the grid and no wall. -/
def canEnter (w : World) (c : Cell) : Bool :=
  match w.kindAt? c with
  | some k => k ≠ .wall
  | none => false

theorem inBounds_of_canEnter {w : World} {c : Cell} (h : w.canEnter c) : w.inBounds c := by
  unfold canEnter kindAt? at h
  by_cases hb : w.inBounds c
  · exact hb
  · simp [hb] at h

def beside (c : Cell) : List Cell :=
  [(c.1+1, c.2), (c.1-1, c.2), (c.1, c.2+1), (c.1, c.2-1)]

def isBeside (w : World) (c : Cell) (k : Kind) : Bool :=
  (beside c).any (fun d => w.kindAt? d = some k)

def neighbors (w : World) (c : Cell) : List Cell :=
  (beside c).filter w.inBounds

/-- All cells, by column and then by row. -/
def cells (w : World) : List Cell :=
  (List.range w.width).flatMap (fun (i : Nat) => (List.range w.height).map (fun (j : Nat) =>
    ((i : Int), (j : Int))))

def cellsOfKind (w : World) (k : Kind) : List Cell :=
  w.cells.filter (fun c => w.kindAt? c = some k)

/-- The rows from the bottom, each as one entry per cell. -/
def rows {α : Type} (w : World) (f : Cell → Kind → α) : List (List α) :=
  (List.range w.height).map (fun (j : Nat) => (List.range w.width).map (fun (i : Nat) =>
    f (i, j) ((w.kindAt? (i, j)).getD .empty)))

def codes (w : World) : List (List Nat) :=
  w.rows (fun _ k => k.code)

def cellEntry (w : World) (c : Cell) (k : Kind) : Json.Value :=
  .object (("type", .text k.name) ::
    (match w.noteAt? c with
      | some m => [("meta", .object m)]
      | none => []))

def rowEntries (w : World) : Json.Value :=
  .list ((w.rows w.cellEntry).map .list)

def text (w : World) : String :=
  "GridWorld(width=" ++ toString w.width ++ ", height=" ++ toString w.height ++ ")"

end World

end Courier
