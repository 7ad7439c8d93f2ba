import Courier.Grid.World
import Courier.Pose.Heading

namespace Courier

/-- A snapshot of the agent; `direction` counts quarter turns clockwise from north. -/
structure Pose (α : Type) where
  x : α
  y : α
  direction : α
  /-- Any value; a filled one is a load. -/
  cargo : Json.Value
  /-- The height of the agent, one if it is not squashed. -/
  scale : α
  moving : Bool

/-- The agent on a cell with a heading, at rest. -/
structure Stance where
  cell : Cell
  heading : Heading
  cargo : Json.Value

namespace Stance

def ahead (s : Stance) (steps : Int) : Cell :=
  (s.cell.1 + steps*s.heading.delta.1, s.cell.2 + steps*s.heading.delta.2)

/-- The default start: column zero of the top row, facing east, without cargo. -/
def start (height : Nat) : Stance := ⟨(0, (height : Int)-1), .east, .bool false⟩

def isCarrying (s : Stance) : Bool := s.cargo.isFilled

end Stance

/-- Numbers that frames can be computed in. -/
class Scalar (α : Type) where
  ofInt : Int → α
  /-- The quotient of two naturals. -/
  ratio : Nat → Nat → α
  add : α → α → α
  sub : α → α → α
  mul : α → α → α
  lt : α → α → Bool
  /-- The remainder in `[0, 4)`. -/
  modFour : α → α

instance : Scalar Binary64 where
  ofInt := Binary64.ofInt
  ratio := Binary64.ofRatio
  add := Binary64.add
  sub := Binary64.sub
  mul := Binary64.mul
  lt := Binary64.lt
  modFour x := x.modNat 4

def Stance.pose (α : Type) [Scalar α] (s : Stance) : Pose α where
  x := Scalar.ofInt s.cell.1
  y := Scalar.ofInt s.cell.2
  direction := Scalar.ofInt s.heading.toNat
  cargo := s.cargo
  scale := Scalar.ofInt 1
  moving := false

end Courier
