import Courier.Files.Table
import Courier.Pose.Entry

namespace Courier

/-- What the trace file is. -/
inductive TraceFile
  | missing
  | unfinished
  | finished (t : Table)

structure Recorder where
  runId : Json.Value
  /-- Rows that make a group. -/
  threshold : Number
  recorded : Nat
  /-- Rows not yet written, the last one first. -/
  buffer : List (List Json.Value)
  /-- Rows that failed half way. -/
  incomplete : Nat
  /-- Whether a row is incomplete or does not fit; then nothing can be written any more. -/
  spoiled : Bool
  /-- The groups of the open writer, the last one first. -/
  writer : Option (List (List (List Json.Value)))
  closed : Bool
  file : TraceFile

/-- Steps of recording; what a failed step has done stays. -/
abbrev Recording (α : Type) := ExceptT Fault (StateM Recorder) α

namespace Recorder

def defaultThreshold : Json.Value := .int 4096

def make (runId threshold : Json.Value) : Except Fault Recorder :=
  match threshold.number? with
  | none => .error (.shape .kind)
  | some n =>
    if n.lt (.int 1) then .error (.value .flushThreshold)
    else .ok ⟨runId, n, 0, [], 0, false, none, false, .missing⟩

def waiting (r : Recorder) : Nat := r.buffer.length + r.incomplete

/-- Writes the buffer as one group; a writer is opened if there is none, and takes over the file. -/
def flush : Recording Unit := do
  let r ← get
  unless r.waiting = 0 do
    if !Table.isTextual r.runId then throw .unfitKind
    if r.spoiled then throw .unfitValue
    set { r with
      buffer := []
      writer := some (r.buffer.reverse :: r.writer.getD [])
      file := .unfinished }

/-- Writes the buffer when it is full. -/
def flushFull : Recording Unit := do
  let r ← get
  if r.threshold.le (.int r.waiting) then flush

/-- Adds a pose with any value for its motion, and writes the buffer when it is full. -/
def recordWith (p : Pose Binary64) (moving : Json.Value) : Recording Unit := do
  modify (fun r => { r with
    buffer := Table.traceRow r.runId r.recorded p moving :: r.buffer
    recorded := r.recorded+1
    spoiled := r.spoiled || !(Table.isFlag p.cargo && Table.isFlag moving) })
  flushFull

def record (p : Pose Binary64) : Recording Unit := recordWith p (.bool p.moving)

/-- The numbers of a pose of any values. -/
def numbersOf (e : PoseEntry) : Except Fault (Pose Binary64) :=
  return {
    x := ← PoseEntry.toBinary64 e.x, y := ← PoseEntry.toBinary64 e.y
    direction := ← PoseEntry.toBinary64 e.direction, cargo := e.cargo
    scale := ← PoseEntry.toBinary64 e.scale, moving := e.moving.isFilled }

/-- Adds a pose of any values; one whose numbers cannot be read leaves an incomplete row. -/
def recordEntry (v : Json.Value) : Recording Unit := do
  let e ← liftM (PoseEntry.ofValue v)
  match numbersOf e with
  | .ok p => recordWith p e.moving
  | .error f =>
    modify (fun r => { r with incomplete := r.incomplete+1, spoiled := true })
    throw f

/-- Writes what is left and finishes the file; only the first time counts. -/
def close : Recording Unit := do
  let r ← get
  unless r.closed do
    set { r with closed := true }
    flush
    modify (fun r => { r with
      writer := none
      file := .finished ⟨Table.traceColumns, (r.writer.getD []).reverse⟩ })

/-- Records poses and closes, also after a failure. -/
def recordAll (vs : List Json.Value) : Recording Unit :=
  tryFinally (vs.forM recordEntry) close

end Recorder

end Courier
