import Courier.Json.Members

namespace Courier

inductive Heading
  | north | east | south | west
  deriving DecidableEq

namespace Heading

instance : Inhabited Heading := ⟨east⟩

def toNat : Heading → Nat
  | north => 0
  | east => 1
  | south => 2
  | west => 3

def name : Heading → String
  | north => "NORTH"
  | east => "EAST"
  | south => "SOUTH"
  | west => "WEST"

/-- The heading after some quarter turns clockwise from north. -/
def ofInt (n : Int) : Heading :=
  match n % 4 with
  | 0 => north
  | 1 => east
  | 2 => south
  | _ => west

/-- The nearest heading to a direction in quarter turns. -/
def nearest (direction : Number) : Except NumberFault Heading :=
  return ofInt (← direction.round)

def delta : Heading → Int × Int
  | north => (0, 1)
  | east => (1, 0)
  | south => (0, -1)
  | west => (-1, 0)

/-- Quarter turns clockwise; negative ones go the other way. -/
def turned (h : Heading) (n : Int) : Heading := ofInt (h.toNat + n)

/-- Signed quarter turns along the shorter arc; half a circle counts clockwise. -/
def shortestTurn (a b : Heading) : Int :=
  let d := ((b.toNat : Int) - a.toNat) % 4
  if 2 < d then d-4 else d

end Heading

namespace Number

/-- The remainder in `[0, 4)` of a number of quarter turns. -/
def modFour : Number → Number
  | .int i => .int (i % 4)
  | .float x => .float (x.modNat 4)

/-- Signed quarter turns between two directions along the shorter arc. -/
def shortestTurn (a b : Number) : Except NumberFault Number := do
  let d := (← (← b.add (← a.mul (.int (-1)))).add (.int 4)).modFour
  if Number.lt (.int 2) d then d.add (.int (-4)) else return d

end Number

namespace Heading

def ofValue (v : Json.Value) : Except Fault Heading :=
  match v.number?.bind Number.toInt? with
  | some i => if 0 ≤ i ∧ i < 4 then .ok (ofInt i) else .error .heading
  | none => .error .heading

/-- A heading turned by a number of quarter turns, after which it must be one again. -/
def turnedBy (h : Heading) (v : Json.Value) : Except Fault Heading := do
  ofValue (.number (← Number.add (.int h.toNat) (← v.toNumber)).modFour)

end Heading

end Courier
