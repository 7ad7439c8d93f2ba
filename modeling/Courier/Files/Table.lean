import Courier.Engine.Basic
import Courier.Interpreter.Basic

namespace Courier

inductive ColumnType
  | text | integer | float | bool
  deriving DecidableEq

def ColumnType.name : ColumnType → String
  | text => "string"
  | integer => "int64"
  | float => "double"
  | bool => "bool"

structure Table where
  columns : List (String × ColumnType)
  groups : List (List (List Json.Value))

namespace Table

def rows (t : Table) : List (List Json.Value) := t.groups.flatten

/-- The rows in each group; a table without groups has an empty one. -/
def groupSizes (t : Table) : List Nat :=
  if t.groups.isEmpty then [0] else t.groups.map List.length

def traceColumns : List (String × ColumnType) :=
  [("run_id", .text), ("frame", .integer), ("x", .float), ("y", .float), ("direction", .float),
   ("carrying_cargo", .bool), ("scale_y", .float), ("is_moving", .bool)]

def logColumns : List (String × ColumnType) :=
  [("run_id", .text), ("index", .integer), ("instruction", .text), ("opcode", .text),
   ("skipped", .bool), ("condition_value", .bool), ("cells_moved", .integer), ("effective", .bool)]

def traceRow (runId : Json.Value) (frame : Nat) (p : Pose Binary64) (moving : Json.Value) :
    List Json.Value :=
  [runId, .int frame, .float p.x, .float p.y, .float p.direction, p.cargo, .float p.scale, moving]

def isFlag : Json.Value → Bool
  | .null => true
  | .bool _ => true
  | _ => false

def isTextual : Json.Value → Bool
  | .null => true
  | .text _ => true
  | _ => false

def optional {α : Type} (f : α → Json.Value) : Option α → Json.Value
  | some a => f a
  | none => .null

/-- What the log tells of a completed instruction, by columns of any values. -/
structure LogEntry where
  instruction : Instruction
  skipped : Json.Value
  condition : Json.Value
  moved : Json.Value
  effective : Json.Value

namespace LogEntry

def ofResult (r : StepResult) : LogEntry where
  instruction := r.instruction
  skipped := .bool r.skipped
  condition := optional .bool r.condition
  moved := optional .int r.moved
  effective := optional .bool r.effective

/-- The entry of an instruction with given values, the trailing ones left out. -/
def ofValues (i : Instruction) (values : List Json.Value) : Except Fault LogEntry :=
  if 4 < values.length then .error (.shape .kind)
  else .ok {
    instruction := i
    skipped := values[0]?.getD (.bool false)
    condition := values[1]?.getD .null
    moved := values[2]?.getD .null
    effective := values[3]?.getD .null }

end LogEntry

/-- Whether an integer fits into sixty-four bits. -/
def fits (i : Int) : Bool := -0x8000000000000000 ≤ i && i < 0x8000000000000000

/-- The value of a column of integers: a number without its fraction, or null. -/
def integerOf (v : Json.Value) : Except Fault Json.Value :=
  match v with
  | .null => .ok .null
  | .bool _ => .error .unfitKind
  | .number (.int i) => if fits i then .ok v else .error (.number .countOutOfRange)
  | .number (.float x) =>
    match x.truncate? with
    | some i => if fits i then .ok (.int i) else .error .unfitValue
    | none => .error .unfitValue
  | _ => .error .unfitValue

def cellOf (t : ColumnType) (v : Json.Value) : Except Fault Json.Value :=
  match t with
  | .text => if isTextual v then .ok v else .error .unfitKind
  | .bool => if isFlag v then .ok v else .error .unfitValue
  | .integer => integerOf v
  | .float => .ok v

/-- Rows as their table holds them. A value that does not fit is met column by column. -/
def fitRows (columns : List (String × ColumnType)) (rows : List (List Json.Value)) :
    Except Fault (List (List Json.Value)) := do
  let _ ← columns.zipIdx.mapM (fun c => rows.mapM (fun r => cellOf c.1.2 (r[c.2]?.getD .null)))
  rows.mapM (fun r => (columns.zip r).mapM (fun c => cellOf c.1.2 c.2))

def logRow (runId : Json.Value) (index : Nat) (e : LogEntry) : List Json.Value :=
  [runId, .int index, .text e.instruction.text, .text e.instruction.command.opcode.text,
   e.skipped, e.condition, e.moved, e.effective]

def ofEntries (runId : Json.Value) (es : List LogEntry) : Except Fault Table := do
  if es.isEmpty then return ⟨logColumns, []⟩
  return ⟨logColumns, [← fitRows logColumns (es.mapIdx (logRow runId))]⟩

def ofResults (runId : Json.Value) (rs : List StepResult) : Except Fault Table :=
  ofEntries runId (rs.map .ofResult)

end Table

end Courier
