import Courier.Json.Members
import Courier.Queue.Basic

namespace Courier.Queue

def takeOrder? (o : Occasion) (q : Queue) : Option (Call × Queue) :=
  (q.orders.find? (·.occasion.same o)).map (fun r =>
    (r.call, { q with orders := q.orders.eraseP (·.occasion.same o) }))

/-- Carries out the orders for an occasion, each once. One order after another is taken, since a
call may use up orders that were left for the same occasion. -/
def reactWithin (answer : Call → Queue → Queue) (o : Occasion) : Nat → Queue → Queue
  | 0, q => q
  | bound+1, q =>
    match q.takeOrder? o with
    | some (c, q) => reactWithin answer o bound (answer c q)
    | none => q

def react (answer : Call → Queue → Queue) (o : Occasion) (q : Queue) : Queue :=
  reactWithin answer o q.orders.length q

def announce (answer : Call → Queue → Queue) (q : Queue) : Queue :=
  let s := q.snapshot
  let q := (q.record (.state s)).react answer ⟨.status, .text s.status.name⟩
  q.react answer ⟨.current, s.current.getD .null⟩

def become (answer : Call → Queue → Queue) (status : Status) (q : Queue) : Queue :=
  let q := if q.status = status then q
    else q.log .info ("Queue " ++ q.status.name ++ " -> " ++ status.name)
  announce answer { q with status, settled := status ≠ .running }

def cancelInFlight (reason : String) (q : Queue) : Queue :=
  { q with token := q.token.map (·.cancel (.text reason)) }

def runReason : String := "preempted by run"

/-- A running queue without a worker gets one. -/
def kick (q : Queue) : Queue :=
  match q.status, q.worker with
  | .running, .absent => { q with worker := .fresh }
  | _, _ => q

theorem kick_absent {q : Queue} (hs : q.status = .running) (hw : q.worker = .absent) :
    q.kick = { q with worker := .fresh } := by
  unfold kick
  rw [hs, hw]

theorem kick_present {q : Queue} (hw : q.worker ≠ .absent) : q.kick = q := by
  unfold kick
  split
  · next ha => exact absurd ha hw
  · rfl

/-- A control call, its announcements answered by `answer`. -/
def callVia (answer : Call → Queue → Queue) (c : Call) (q : Queue) : Queue :=
  match c with
  | .run lines =>
    let q := q.cancelInFlight runReason
    let q := { q with pending := lines, current := none, fault := none
                      interpreter := q.interpreter.reset }
    (q.become answer .running).kick
  | .enqueue line => (announce answer { q with pending := q.pending ++ [line] }).kick
  | .setQueue lines => (announce answer { q with pending := lines }).kick
  | .start =>
    match q.status with
    | .idle => (q.become answer .running).kick
    | .paused => (q.become answer .running).kick
    | _ => q
  | .pause =>
    match q.status with
    | .running => (q.cancelInFlight "paused").become answer .paused
    | _ => q
  | .resume =>
    match q.status with
    | .paused => (q.become answer .running).kick
    | _ => q
  | .stop =>
    let q := q.cancelInFlight "stopped"
    let q := { q with pending := [], current := none, fault := none
                      interpreter := q.interpreter.reset }
    q.become answer .idle

/-- A control call with answers to answers, up to a depth; each answer uses up an order, so the
number of orders is deep enough. -/
def callWithin : Nat → Call → Queue → Queue
  | 0, c, q => callVia (fun _ q => q) c q
  | depth+1, c, q => callVia (callWithin depth) c q

def call (c : Call) (q : Queue) : Queue := callWithin q.orders.length c q

/-- A call that replaces lines by those that a value consists of. A value without parts is refused;
a run has cancelled the line in execution by then. -/
def callWithLines (isRun : Bool) (v : Json.Value) (q : Queue) : Except Fault Unit × Queue :=
  match v.parts with
  | .ok lines => (.ok (), q.call (if isRun then .run lines else .setQueue lines))
  | .error f => (.error f, if isRun then q.cancelInFlight runReason else q)

end Courier.Queue
