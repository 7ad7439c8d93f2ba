import Courier.Queue.Worker

namespace Courier.Queue

def isCancelled (q : Queue) : Bool := (q.token.getD .fresh).isCancelled

/-- Whether the worker can run without the clock moving. -/
def canWork (q : Queue) : Bool :=
  match q.worker with
  | .fresh => true
  | .asleep _ _ _ none => true
  | .asleep _ _ _ (some wake) => q.isCancelled || wake.le q.now
  | _ => false

def wakeTime? (q : Queue) : Option Binary64 :=
  match q.worker with
  | .asleep _ _ _ wake => wake
  | _ => none

def linePauses (m : MotionSettings) (line : Line) : Nat :=
  match Instruction.parse line.plain with
  | .ok i => (i.command.count?.getD 1 + 1)*(Action.glideLength m + 2) + Action.squashLength m + 2
  | .error _ => 1

def linesPauses (m : MotionSettings) : List Line → Nat
  | [] => 0
  | line :: lines => linePauses m line + linesPauses m lines

def pauses (q : Queue) : Nat :=
  let m := q.engine.settings
  let job := match q.worker with
    | .asleep _ _ (.act a) _ => Action.rest m a + 1
    | .asleep _ _ .wait _ => 1
    | _ => 0
  job + linesPauses m q.backlog + 2

/-- Some turns, each up to the worker's next pause. -/
def tick : Nat → Queue → Queue
  | 0, q => q
  | n+1, q => tick n (if q.canWork then q.work else q)

/-- Runs everything up to a time, within a number of pauses. -/
def advanceWithin (target : Binary64) : Nat → Queue → Queue
  | 0, q => q
  | bound+1, q =>
    if q.canWork then advanceWithin target bound q.work
    else
      match q.wakeTime? with
      | some wake =>
        if wake.le target then advanceWithin target bound { q with now := wake }.work else q
      | none => q

def advance (q : Queue) (seconds : Number) : Except Fault Queue := do
  let target ← (← Number.add (.float q.now) seconds).toBinary64
  return { advanceWithin target q.pauses q with now := target }

/-- Runs, the clock jumping as needed, until the queue has settled; false if it runs and no worker
is left. The worker is also woken from a pause that is infinite, where on a clock that runs it would
sleep for ever: only a queue whose pauses are finite comes to this end on every clock. -/
def settleWithin : Nat → Queue → Bool × Queue
  | 0, q => (false, q)
  | bound+1, q =>
    if q.settled then (true, q)
    else if q.canWork then settleWithin bound q.work
    else
      match q.wakeTime? with
      | some wake => settleWithin bound { q with now := wake }.work
      | none => (false, q)

def settle (q : Queue) : Bool × Queue := settleWithin q.pauses q

def resetEngine (q : Queue) (pose : Option PoseEntry) : Except Fault Queue := do
  let s ← q.engine.resetStance pose
  return q.apply (.commit s)

end Courier.Queue
