import Courier.Grid.World
import Courier.Json.Nested
import Courier.Pose.Basic

namespace Courier

/-- A line in data coordinates. -/
structure Segment where
  colour : String
  xs : List Binary64
  ys : List Binary64

structure Mark where
  label : String
  colour : String
  x : Binary64
  y : Binary64

structure Drawing where
  image : List (List Nat)
  grid : List Segment
  xTicks : List Nat
  yTicks : List Nat
  title : String
  way : List Segment
  marks : List Mark

namespace Drawing

def kindColour : Kind → String
  | .empty => "#f5f5f0"
  | .wall => "#4a4a4a"
  | .pickup => "#f2b134"
  | .dropoff => "#3fa34d"

def lineColour : String := "#cccccc"

def wayColour : String := "#1f77b4"

def cargoColour : String := "#d62728"

def endColour : String := "#000000"

/-- The boundaries between the colours of the codes. -/
def colourBounds : List Binary64 :=
  (List.range 5).map (fun n => Binary64.sub (.ofNat n) (.ofRatio 1 2))

def resolution : Nat := 150

/-- The boundary before a column or row. -/
def edge (n : Nat) : Binary64 := Binary64.sub (.ofNat n) (.ofRatio 1 2)

def unitSpan : List Binary64 := [.ofNat 0, .ofNat 1]

/-- Vertical lines between the columns, then horizontal ones between the rows. -/
def gridLines (w : World) : List Segment :=
  (List.range (w.width+1)).map (fun n => ⟨lineColour, [edge n, edge n], unitSpan⟩)
    ++ (List.range (w.height+1)).map (fun n => ⟨lineColour, unitSpan, [edge n, edge n]⟩)

/-- The colour of a way with some cargo, one of an array: nested lists hold a single scalar. -/
def colourOf (texts : Bool) (cargo : Json.Value) : Except Fault String :=
  match cargo.scalars with
  | [v] => .ok (if v.isFilledIn texts then cargoColour else wayColour)
  | _ => .error (.shape .array)

/-- The way from pose to pose, in the colour of what the agent carries on arrival. -/
def segments (texts : Bool) : List (Pose Binary64) → Except Fault (List Segment)
  | p :: q :: ps => do
    let colour ← colourOf texts q.cargo
    return ⟨colour, [p.x, q.x], [p.y, q.y]⟩ :: (← segments texts (q :: ps))
  | _ => .ok []

/-- The way over poses, whose cargo is one array. -/
def wayOf (ps : List (Pose Binary64)) : Except Fault (List Segment) := do
  let cargo : Json.Value := .list (ps.map (·.cargo))
  if cargo.dimensions?.isNone then throw (.shape .array)
  segments (Json.Value.becomeTexts cargo.scalars) ps

/-- A mark is nowhere unless both coordinates are finite. -/
def markAt (label colour : String) (p : Pose Binary64) : Mark :=
  if p.x.isFinite && p.y.isFinite then ⟨label, colour, p.x, p.y⟩
  else ⟨label, colour, .nan, .nan⟩

def marksOf (ps : List (Pose Binary64)) : List Mark :=
  match ps.head?, ps.getLast? with
  | some p, some q => [markAt "start" wayColour p, markAt "end" endColour q]
  | _, _ => []

def make (w : World) (ps : List (Pose Binary64)) (title : String) : Except Fault Drawing := do
  let way ← wayOf ps
  return {
    image := w.codes, grid := gridLines w
    xTicks := List.range w.width, yTicks := List.range w.height
    title, way, marks := marksOf ps }

end Drawing

end Courier
