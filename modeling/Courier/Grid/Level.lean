import Courier.Grid.Build
import Courier.Json.Load
import Courier.Json.Writer

namespace Courier.Level

open Json (Value)

def walls : List World.Placement :=
  [⟨(3, 2), .wall, [("height", .float (Binary64.ofRatio 6 5))]⟩, ⟨(2, 7), .wall, []⟩,
   ⟨(4, 0), .wall, []⟩, ⟨(7, 3), .wall, []⟩]

/-- The shared walls on an eight by eight grid with one pickup and one dropoff. -/
def furnished (pickup dropoff : Cell) : Except Fault World :=
  World.ofCells 8 8 (walls ++
    [⟨pickup, .pickup, [("id", .text "P1")]⟩, ⟨dropoff, .dropoff, [("id", .text "D1")]⟩])

def names : List String := ["level1", "sandbox"]

def builtin (name : String) : Except Fault World :=
  match name with
  | "sandbox" => furnished (1, 1) (6, 6)
  | "level1" => furnished (1, 5) (5, 5)
  | _ => .error (.value (.unknownLevel (Text.quoted name)))

def builtinOf (v : Value) : Except Fault World :=
  match v with
  | .text name => builtin name
  | v =>
    if v.key?.isSome then .error (.value (.unknownLevel v.literal)) else .error (.shape .kind)

def toDocument (w : World) : Value :=
  .object [("version", .int 1), ("width", .int w.width), ("height", .int w.height),
    ("rows", w.rowEntries)]

def save (w : World) : String := Json.write false (toDocument w)

/-- A size that a document declares must be the actual one. -/
def checkDeclared (ms : Json.Members) (key : String) (actual : Nat) : Except Fault Unit :=
  match (Json.lookup ms (.text key)).getD .null with
  | .null => .ok ()
  | v =>
    if Value.equal false v (.int actual) then .ok ()
    else .error (.showing v (.declaredSize key v actual))

/-- The world of a level document; `nanEqual` tells whether NaN is the same key as itself in it. -/
def ofDocument (nanEqual : Bool) (v : Value) : Except Fault World :=
  match v with
  | .object ms =>
    match Json.lookup ms "rows" with
    | some rows => do
      let w ← World.ofRows nanEqual rows
      checkDeclared ms "width" w.width
      checkDeclared ms "height" w.height
      return w
    | none => .error (.format .levelPayload)
  | _ => .error (.format .levelPayload)

def load (path text : String) : Except Fault World := do
  ofDocument true (← Json.load "level" path text)

end Courier.Level
