import Courier.Queue.Control

namespace Courier.Queue

def apply (q : Queue) (e : Effect) : Queue :=
  let q := { q with engine := q.engine.apply e }
  match e with
  | .remark r => q.log (if r.isNews then .info else .debug) r.message
  | e =>
    match Engine.frameOf? e with
    | some f =>
      let q := { q with frames := q.frames+1 }
      (q.record (.frame q.now f)).react call ⟨.frame, .int q.frames⟩
    | none => q

def applyAll (q : Queue) (es : List Effect) : Queue := es.foldl apply q

def complete (q : Queue) (r : StepResult) : Queue :=
  let q := { q with token := none, current := none, completed := q.completed.push r }
  ((q.record (.step r)).react call ⟨.step, .text r.instruction.text⟩).announce call

def abandon (q : Queue) (line : Line) : Queue :=
  let reason := (q.token.bind (·.reason)).getD .null
  let q := q.log .info ("Abandoned in-flight instruction " ++ line.literal ++ " (" ++ reason.plain
    ++ ")")
  { announce call { q with current := none } with token := none }

def fail (q : Queue) (f : Fault) : Queue :=
  let q := q.log .info ("Instruction " ++ q.shownCurrent.literal ++ " failed: " ++ f.message)
  { become call .error { q with fault := some f } with token := none, worker := .absent }

/-- Nothing is pending: the queue ends, and its worker with it. -/
def finish (q : Queue) : Queue :=
  match q.interpreter.checkBalanced with
  | .error f => q.fail f
  | .ok () => { q.become call .idle with worker := .absent }

/-- A line raised a fault. The result tells whether the worker goes on. -/
def stumble (q : Queue) (line : Line) (f : Fault) : Queue × Bool :=
  match f with
  | .cancelled _ => (q.abandon line, true)
  | f =>
    let q := if f.isInstruction then q
      else q.log .error ("Unexpected failure executing " ++ line.literal)
    (q.fail f, false)

def tokenCheck (q : Queue) : Except Fault Unit := (q.token.getD .fresh).check

/-- A cancelled pause: an animation shows the committed stance again. -/
def interrupt (q : Queue) (line : Line) (job : Job) (f : Fault) : Queue × Bool :=
  let q := if job.showsCommitted then q.apply (.publish (.still q.engine.committed)) else q
  q.stumble line f

/-- Falls asleep in an instruction unless it is cancelled. -/
def sleep (q : Queue) (line : Line) (i : Instruction) (job : Job) (seconds : Number) :
    Queue × Bool :=
  match q.tokenCheck with
  | .error f => q.interrupt line job f
  | .ok () =>
    if seconds.le (.int 0) then ({ q with worker := .asleep line i job none }, false)
    else
      match Watch.timeAfter q.now q.now seconds with
      | .ok wake => ({ q with worker := .asleep line i job (some wake) }, false)
      | .error f => q.stumble line (.number f)

/-- Shows a stretch of an action and goes on as it says. -/
def proceed (q : Queue) (line : Line) (i : Instruction) (s : Stretch) : Queue × Bool :=
  let q := q.applyAll s.effects
  match s.next with
  | .pause seconds a => q.sleep line i (.act a) seconds
  | .done a => (q.complete (.ofAnswer i a), true)
  | .failed f => q.stumble line f

/-- Notes what the opening of a line tells. -/
def heed (q : Queue) (o : Opening) : Queue :=
  let q := match o.evaluated with
    | some label => q.record (.evaluated label)
    | none => q
  match o.skipped with
  | some text => q.log .debug (Interpreter.skipText text)
  | none => q

def execute (q : Queue) (line : Line) : Queue × Bool :=
  let o := q.interpreter.openLine (q.token.getD .fresh)
    (.ofStance q.engine.world q.engine.committed) line.plain
  let q := q.heed o
  match o.result with
  | .error f => q.stumble line f
  | .ok (i, d, branches) =>
    let q := { q with interpreter := { q.interpreter with branches } }
    match d with
    | .finished r => (q.complete r, true)
    | .act a => q.proceed line i (q.engine.begin a)
    | .wait seconds => q.sleep line i .wait seconds

/-- Takes a line from those pending and announces it. -/
def dispatch (q : Queue) (line : Line) (pending : List Line) : Queue :=
  announce call { q with pending, token := some .fresh, current := some line }

/-- Takes the next line, if the queue runs and there is one. The result tells whether the worker
goes on. -/
def takeLine (q : Queue) : Queue × Bool :=
  match q.status with
  | .running =>
    match q.pending with
    | [] => (q.finish, false)
    | line :: pending => (q.dispatch line pending).execute line
  | _ => ({ q with worker := .absent }, false)

/-- Takes lines for as long as the queue runs; the first argument bounds their number. -/
def takeLines : Nat → Queue → Queue
  | 0, q => { q with worker := .absent }
  | bound+1, q =>
    match q.takeLine with
    | (q, true) => takeLines bound q
    | (q, false) => q

/-- The lines that may still be taken: those pending and those that orders bring in. -/
def backlog (q : Queue) : List Line := q.pending ++ q.orders.flatMap (·.call.lines)

def takeAll (q : Queue) : Queue := takeLines (q.backlog.length+1) q

def wakeUp (q : Queue) (line : Line) (i : Instruction) (job : Job) : Queue × Bool :=
  match q.tokenCheck with
  | .error f => q.interrupt line job f
  | .ok () =>
    match job with
    | .act a => q.proceed line i (q.engine.resume a)
    | .wait => (q.complete (.plain i), true)

/-- Runs the worker to its next pause. -/
def work (q : Queue) : Queue :=
  match q.worker with
  | .fresh => takeAll { q with worker := .busy }
  | .asleep line i job _ =>
    match wakeUp { q with worker := .busy } line i job with
    | (q, true) => q.takeAll
    | (q, false) => q
  | _ => q

section Work

variable {q : Queue}

theorem work_idle (hw : q.worker = .absent ∨ q.worker = .busy) : q.work = q := by
  unfold work
  rcases hw with hw | hw <;> rw [hw]

theorem work_fresh (hw : q.worker = .fresh) : q.work = takeAll { q with worker := .busy } := by
  unfold work
  rw [hw]

theorem work_asleep {line : Line} {i : Instruction} {job : Job} {wake : Option Binary64}
    (hw : q.worker = .asleep line i job wake) :
    q.work = if (wakeUp { q with worker := .busy } line i job).2 then
        (wakeUp { q with worker := .busy } line i job).1.takeAll
      else (wakeUp { q with worker := .busy } line i job).1 := by
  unfold work
  rw [hw]
  dsimp only
  generalize wakeUp { q with worker := .busy } line i job = x
  obtain ⟨r, goes⟩ := x
  cases goes <;> rfl

end Work

end Courier.Queue
