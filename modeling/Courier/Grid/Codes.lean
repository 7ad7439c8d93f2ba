import Courier.Grid.Build
import Courier.Grid.Position
import Courier.Json.Nested

namespace Courier.World

open Json (Value)

def codeKind? (v : Value) : Option Kind := do
  Kind.ofCode? (← (← v.number?).toInt?)

/-- Whether scalars can be told apart by their order: objects have none, null only has one with
itself, and texts have none among huge integers. -/
def areOrdered (vs : List Value) : Bool :=
  !vs.any (·.isObject) && (vs.length < 2 || !vs.any (·.isNull))
    && !(vs.any (·.isText) && vs.any (·.isHuge))

abbrev GivenNote := Position × Value

/-- Metadata given with a column and a row, which must be scalars. -/
def givenNote (v : Value) : Except Fault GivenNote := do
  match ← v.parts with
  | i :: j :: rest => return (← Position.ofScalars i j, rest.headD (.object []))
  | _ => throw (.shape .kind)

/-- Later metadata takes the place of earlier metadata of the same position. -/
def placeNote (ns : List GivenNote) (n : GivenNote) : List GivenNote :=
  if ns.any (·.1.same n.1) then ns.map (fun m => if m.1.same n.1 then (m.1, n.2) else m)
  else ns ++ [n]

/-- The metadata of the cells among the positions. -/
def readNotes (given : List GivenNote) : Except Fault (List (Cell × Meta)) := do
  let notes ← given.mapM (fun n => do return (n.1.cell?, ← n.2.members false))
  return notes.filterMap (fun n => n.1.map (·, n.2))

def ofCodes (codes : Value) (notes : List Value) : Except Fault World := do
  let some ds := codes.dimensions? | throw (.shape .array)
  let given := (← notes.mapM givenNote).foldl placeNote []
  match codes, ds with
  | .list rows, [height, width] =>
    let codes := rows.map (·.scalars)
    if width = 0 ∨ height = 0 then throw (.format (.gridShape ds))
    if !areOrdered codes.flatten then throw (.shape .kind)
    let kinds := codes.map (·.map codeKind?)
    if !kinds.all (·.all Option.isSome) then throw (.format .cellCodes)
    sized width height (fun i j => (((kinds[j]?.getD [])[i]?).join).getD .empty)
      (← readNotes given)
  | _, _ => throw (.format (.gridShape ds))

end Courier.World
