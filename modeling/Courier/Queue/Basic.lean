import Courier.Engine.Basic
import Courier.Interpreter.Basic

namespace Courier

inductive Status
  | idle | running | paused | error
  deriving DecidableEq

def Status.name : Status → String
  | idle => "idle"
  | running => "running"
  | paused => "paused"
  | error => "error"

/-- A line as it was given: a text, or a value that stands for its plain text. -/
abbrev Line := Json.Value

/-- A control call. -/
inductive Call
  | run (lines : List Line)
  | enqueue (line : Line)
  | setQueue (lines : List Line)
  | start
  | pause
  | resume
  | stop

def Call.lines : Call → List Line
  | run lines => lines
  | enqueue line => [line]
  | setQueue lines => lines
  | _ => []

/-- The queue as its observers see it. -/
structure Snapshot where
  pending : List Line
  current : Option Line
  status : Status

inductive LogLevel
  | debug | info | error

def LogLevel.name : LogLevel → String
  | debug => "DEBUG"
  | info => "INFO"
  | error => "ERROR"

inductive Event
  | state (s : Snapshot)
  | step (r : StepResult)
  | frame (time : Binary64) (f : Frame)
  /-- A reported condition was evaluated. -/
  | evaluated (label : String)
  | log (level : LogLevel) (text : String)

/-- The kinds of occasions to which an observer can react. -/
inductive Moment
  | status
  /-- A line is in execution, or none. -/
  | current
  | step
  | frame
  deriving DecidableEq

/-- An occasion and what it is about: a status, a line or null, the text of a step, the number of a
frame since the start. -/
structure Occasion where
  moment : Moment
  about : Json.Value

def Occasion.same (a b : Occasion) : Bool :=
  a.moment = b.moment && Json.Value.equal true a.about b.about

/-- A call that an observer makes once, on the first such occasion. -/
structure Order where
  occasion : Occasion
  call : Call

/-- What an instruction pauses in. -/
inductive Job
  | act (a : Activity)
  | wait

def Job.showsCommitted : Job → Bool
  | act a => a.showsCommitted
  | wait => false

inductive Worker
  | absent
  /-- It will start with the next pending line. -/
  | fresh
  | busy
  /-- It pauses in an instruction, for one turn or up to a time. -/
  | asleep (line : Line) (instruction : Instruction) (job : Job) (wake : Option Binary64)

structure Queue where
  interpreter : Interpreter
  engine : Engine
  pending : List Line
  current : Option Line
  status : Status
  /-- Whoever waits for the queue to end can go on. -/
  settled : Bool
  fault : Option Fault
  /-- The token of the line in execution. -/
  token : Option Token
  worker : Worker
  completed : Array StepResult
  now : Binary64
  frames : Nat
  orders : List Order
  trace : Array Event

namespace Queue

def make (t : Interpreter) (e : Engine) : Queue where
  interpreter := t
  engine := e
  pending := []
  current := none
  status := .idle
  settled := true
  fault := none
  token := none
  worker := .absent
  completed := #[]
  now := Binary64.zero false
  frames := 0
  orders := []
  trace := #[]

def snapshot (q : Queue) : Snapshot := ⟨q.pending, q.current, q.status⟩

def shownCurrent (q : Queue) : Line := q.current.getD .null

def record (q : Queue) (e : Event) : Queue := { q with trace := q.trace.push e }

def log (q : Queue) (level : LogLevel) (text : String) : Queue := q.record (.log level text)

def leave (q : Queue) (o : Order) : Queue := { q with orders := q.orders ++ [o] }

def clearTrace (q : Queue) : Queue := { q with trace := #[] }

end Queue

end Courier
