import Courier.Grid.World
import Courier.Json.Members

namespace Courier

open Json (Value)

/-- A column and a row, of any kind. -/
structure Position where
  column : Value
  row : Value

namespace Position

def ofScalars (column row : Value) : Except Fault Position :=
  if column.key?.isSome && row.key?.isSome then .ok ⟨column, row⟩ else .error (.shape .kind)

def same (p q : Position) : Bool :=
  Value.equal false p.column q.column && Value.equal false p.row q.row

/-- Whether a coordinate is at least zero and below a size. -/
def isWithin (size : Number) (v : Value) : Except Fault Bool := do
  let n ← v.toNumber
  return Number.le (.int 0) n && n.lt size

/-- Whether a position is inside a grid; the row of one that is beside it is not looked at. -/
def isInside (width height : Number) (p : Position) : Except Fault Bool := do
  if ← isWithin width p.column then isWithin height p.row else return false

def rowCells (width : Nat) (row : Int) : List Cell :=
  (List.range width).map (fun (i : Nat) => ((i : Int), row))

/-- The cells that a position inside a grid selects. A truth value selects everything or nothing and
counts no dimension, so that a number beside it counts the rows. -/
def selection (width height : Nat) (p : Position) : Except Fault (List Cell) :=
  match p.column, p.row with
  | .number (.int i), .number (.int j) => .ok [(i, j)]
  | .bool a, .number (.int j) => .ok (if a then rowCells width j else [])
  | .number (.int i), .bool b =>
    if b then (if i < height then .ok (rowCells width i) else .error (.shape .place)) else .ok []
  | .bool a, .bool b =>
    .ok (if a && b then (List.range height).flatMap (fun (j : Nat) => rowCells width j) else [])
  | _, _ => .error (.shape .place)

/-- The cell that a position inside a grid counts: only whole numbers count a single cell. -/
def cell (width height : Nat) (p : Position) : Except Fault Cell := do
  let _ ← p.selection width height
  match p.column, p.row with
  | .number (.int i), .number (.int j) => return (i, j)
  | _, _ => throw (.shape .kind)

/-- The cell with a position, if its coordinates are whole. -/
def cell? (p : Position) : Option Cell := do
  return (← (← p.column.number?).toInt?, ← (← p.row.number?).toInt?)

/-- The position some columns and rows away. -/
def moved (p : Position) (offset : Cell) : Except Fault Position := do
  let column ← (← p.column.toNumber).add (.int offset.1)
  let row ← (← p.row.toNumber).add (.int offset.2)
  return ⟨.number column, .number row⟩

def sides (p : Position) : Except Fault (List Position) :=
  (World.beside (0, 0)).mapM p.moved

end Position

namespace World

def isInside (w : World) (p : Position) : Except Fault Bool :=
  p.isInside (.int w.width) (.int w.height)

/-- What a query tells of the cell at a position inside of the grid. -/
def lookAt {α : Type} (w : World) (look : Cell → Option α) (p : Position) :
    Except Fault (Option α) := do
  if ← w.isInside p then return look (← p.cell w.width w.height) else return none

def someHolds (w : World) (k : Kind) : List Position → Except Fault Bool
  | [] => .ok false
  | p :: ps => do
    if (← w.lookAt w.kindAt? p) = some k then return true else someHolds w k ps

def isBesideAt (w : World) (p : Position) (k : Kind) : Except Fault Bool := do
  w.someHolds k (← p.sides)

def neighborsAt (w : World) (p : Position) : Except Fault (List Position) := do
  (← p.sides).filterM w.isInside

end World

end Courier
