import Courier.Grid.Codes
import Courier.Grid.Level
import Courier.Grid.Position

namespace Courier.World

open Json (Value)

/-- A cell given by a position of any values. -/
structure CellEntry where
  position : Position
  kind : Kind
  note : Value

namespace CellEntry

/-- The cell of a list with column, row, kind and, perhaps, metadata. -/
def ofValue (v : Value) : Except Fault CellEntry := do
  match ← v.parts with
  | i :: j :: k :: rest =>
    let kind ← Kind.ofNameValue k
    return ⟨← Position.ofScalars i j, kind, rest.headD (.object [])⟩
  | _ => throw (.shape .kind)

/-- A later entry takes the place of an earlier one for the same position. -/
def place (es : List CellEntry) (e : CellEntry) : List CellEntry :=
  if es.any (·.position.same e.position) then
    es.map (fun f => if f.position.same e.position then { e with position := f.position } else f)
  else es ++ [e]

/-- The cells that an entry fills in a grid. -/
def cells (width height : Nat) (e : CellEntry) : Except Fault (List Cell) := do
  if ← e.position.isInside (.int width) (.int height) then e.position.selection width height
  else
    throw (.format (.cellOutside e.position.column e.position.row (.int width) (.int height)))

end CellEntry

/-- The most cells that there is room for. -/
def maxCells : Nat := 1 <<< 36

/-- The number of columns or rows that a value counts. A truth value counts none. -/
def sizeOf (v : Value) : Except Fault Nat :=
  match v with
  | .bool _ => .error (.shape .kind)
  | v => do return (← (← v.toNumber).count).toNat

/-- A number of columns or rows, which is at least one. -/
def checkSize (v : Value) : Except Fault Unit := do
  if (← v.toNumber).lt (.int 1) then throw (.format .gridDimensions)

def dimensionsOf (width height : Value) : Except Fault (Nat × Nat) := do
  checkSize width
  checkSize height
  let h ← sizeOf height
  let w ← sizeOf width
  if 1 <<< 63 ≤ w*h then throw (.shape .array)
  if maxCells < w*h then throw .noRoom
  return (w, h)

def emptyOf (width height : Value) : Except Fault World := do
  let (w, h) ← dimensionsOf width height
  empty w h

def CellEntry.note? (e : CellEntry) : Except Fault (Option (Cell × Meta)) := do
  if e.note.isFilled then
    let note ← e.note.members false
    return e.position.cell?.map (·, note)
  else return none

/-- The world with given cells; of two entries that fill a cell the later one counts. All positions
are looked at before any metadata. -/
def ofEntries (width height : Value) (es : List CellEntry) : Except Fault World := do
  let (w, h) ← dimensionsOf width height
  let es := es.foldl CellEntry.place []
  let filled ← es.mapM (fun e => do return (← e.cells w h, e.kind))
  let notes ← es.filterMapM (·.note?)
  sized w h
    (fun i j =>
      ((filled.reverse.find? (·.1.contains ((i : Int), (j : Int)))).map (·.2)).getD .empty)
    notes

def pictureLines (v : Value) : Except Fault (List String) := do
  (← v.parts).mapM (fun l =>
    match l with
    | .text s => .ok s
    | _ => .error (.shape .memberless))

def ofDescription (v : Value) : Except Fault World := do
  let field (key : String) : Value := (v.member? key).getD .null
  let items (key : String) : Except Fault (List Value) :=
    match v.member? key with
    | some v => v.parts
    | none => .ok []
  if (v.member? "level").isSome then Level.builtinOf (field "level")
  else if (v.member? "ascii").isSome then ofPicture (← pictureLines (field "ascii"))
  else if (v.member? "rows").isSome then ofRows false (field "rows")
  else if (v.member? "empty").isSome then
    match ← items "empty" with
    | [width, height] => emptyOf width height
    | _ => throw (.shape .kind)
  else if (v.member? "cells").isSome then do
    ofEntries (field "width") (field "height") (← (← items "cells").mapM CellEntry.ofValue)
  else if (v.member? "codes").isSome then do
    ofCodes (field "codes") (← items "meta")
  else if (v.member? "payload").isSome then Level.ofDocument false (field "payload")
  else throw (.shape .kind)

end Courier.World
