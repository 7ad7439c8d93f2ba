import Courier.Pose.Basic
import Courier.Text.Case

namespace Courier

/-- What a condition can see: the world and the cell ahead of the agent, if the pose has one. -/
structure Scene where
  world : World
  ahead : Except Fault Cell

namespace Scene

def ofStance (w : World) (s : Stance) : Scene := ⟨w, .ok (s.ahead 1)⟩

end Scene

structure Condition where
  test : Scene → Except Fault Bool
  /-- The name under which evaluations are reported, if they are. -/
  label : Option String

namespace Condition

def isWallAhead : Condition where
  test scene := do return scene.world.isWall (← scene.ahead)
  label := none

def constant (b : Bool) : Condition := ⟨fun _ => .ok b, none⟩

def standard : List (String × Condition) :=
  [("IS_WALL_AHEAD", isWallAhead), ("TRUE", constant true), ("FALSE", constant false)]

/-- A table of conditions as given; an empty one stands for the standard one. -/
def table (given : List (String × Condition)) : List (String × Condition) :=
  if given.isEmpty then standard else given

def register (cs : List (String × Condition)) (name : String) (c : Condition) :
    List (String × Condition) :=
  Json.insert cs (Text.upper name) c

end Condition

end Courier
