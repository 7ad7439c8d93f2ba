import Courier.Grid.World
import Courier.Json.Members
import Courier.Text.Blank

namespace Courier.World

open Json (Value)

/-- The world of the given size with a kind for every column and row. -/
def sized (width height : Int) (f : Nat → Nat → Kind) (notes : List (Cell × Meta)) :
    Except Fault World :=
  if h : 0 < width.toNat ∧ 0 < height.toNat then
    .ok (ofFn width.toNat height.toNat f notes h.1 h.2)
  else .error (.format .gridDimensions)

def empty (width height : Int) : Except Fault World :=
  sized width height (fun _ _ => .empty) []

/-- A cell given with its kind and metadata. -/
structure Placement where
  cell : Cell
  kind : Kind
  note : Meta

/-- A later placement takes the place of an earlier one on the same cell. -/
def place (ps : List Placement) (p : Placement) : List Placement :=
  if ps.any (·.cell = p.cell) then ps.map (fun q => if q.cell = p.cell then p else q)
  else ps ++ [p]

/-- The first placement outside of a grid. -/
def outside? (width height : Int) (ps : List Placement) : Option Cell :=
  (ps.find? (fun p =>
    !(0 ≤ p.cell.1 && p.cell.1 < width && 0 ≤ p.cell.2 && p.cell.2 < height))).map (·.cell)

def ofCells (width height : Int) (ps : List Placement) : Except Fault World :=
  if width < 1 ∨ height < 1 then .error (.format .gridDimensions)
  else
    match outside? width height ps with
    | some c => .error (.format (.cellOutside (.int c.1) (.int c.2) (.int width) (.int height)))
    | none =>
      sized width height
        (fun i j =>
          ((ps.find? (fun p => p.cell = ((i : Int), (j : Int)))).map (·.kind)).getD .empty)
        ((ps.filter (fun p => !p.note.isEmpty)).map (fun p => (p.cell, p.note)))

/-- The placement that an entry describes. -/
def entryPlacement (nanEqual : Bool) (i j : Nat) (entry : Value) : Except Fault Placement :=
  match entry with
  | .object ms => do
    let type := (Json.lookup ms "type").getD (.text "empty")
    let kind? := match type with
      | .text s => Kind.ofName? s
      | _ => none
    match kind? with
    | none => .error (.showing type (.cellType type i j))
    | some kind =>
      let note ← ((Json.lookup ms "meta").getD .null).toMembers nanEqual
      return { cell := (i, j), kind, note }
  | _ => .error (.shape .memberless)

/-- The placements of one row, from column `i` on. -/
def rowPlacements (nanEqual : Bool) (j : Nat) :
    Nat → List Value → Except Fault (List Placement)
  | _, [] => .ok []
  | i, e :: es => do
    let p ← entryPlacement nanEqual i j e
    return p :: (← rowPlacements nanEqual j (i+1) es)

/-- The placements of rows that all have the same width, from row `j` on. -/
def rowsPlacements (nanEqual : Bool) (width : Nat) :
    Nat → List Value → Except Fault (List Placement)
  | _, [] => .ok []
  | j, r :: rs => do
    let es ← r.parts
    if es.length ≠ width then .error (.format (.rowWidth j es.length width))
    let ps ← rowPlacements nanEqual j 0 es
    return ps ++ (← rowsPlacements nanEqual width (j+1) rs)

def rowsOf (v : Value) : Except Fault (Value × List Value) :=
  if v.isFilled then
    match v with
    | .object _ => .error (.shape .missingEntry)
    | v => do
      match ← v.parts with
      | [] => .error (.format .noRows)
      | r :: rs => if r.isFilled then return (r, rs) else .error (.format .noRows)
  else .error (.format .noRows)

/-- The world of rows of entries; `nanEqual` tells whether NaN is the same key as itself in their
metadata. -/
def ofRows (nanEqual : Bool) (v : Value) : Except Fault World := do
  let (r, rs) ← rowsOf v
  let width := (← r.parts).length
  let ps ← rowsPlacements nanEqual width 0 (r :: rs)
  ofCells width (rs.length+1) ps

def pictureKinds : List Char → Except Fault (List Kind)
  | [] => .ok []
  | c :: cs =>
    match Kind.ofPicture? c with
    | none => .error (.format (.pictureCell c))
    | some k => do return k :: (← pictureKinds cs)

/-- The kinds of picture lines of one width, from line `n` on. -/
def pictureRows (width : Nat) : Nat → List (List Char) → Except Fault (List (List Kind))
  | _, [] => .ok []
  | n, l :: ls => do
    if l.length ≠ width then .error (.format (.pictureWidth n l.length width))
    let ks ← pictureKinds l
    return ks :: (← pictureRows width (n+1) ls)

/-- The world of a picture, whose first line is the top row; blank lines do not count. -/
def ofPicture (picture : List String) : Except Fault World := do
  let ls := (picture.map (fun s => Text.trim Text.isBlank s.toList)).filter (fun l => !l.isEmpty)
  match ls with
  | [] => .error (.format .noPicture)
  | l :: _ =>
    let rows ← pictureRows l.length 0 ls
    sized l.length ls.length
      (fun i j => ((rows[ls.length-1-j]?.getD [])[i]?).getD .empty) []

end Courier.World
