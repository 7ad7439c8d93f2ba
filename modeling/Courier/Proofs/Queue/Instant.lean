import Courier.Proofs.Queue.Reachable

namespace Courier

/-- What is left to do before the worker goes on. -/
inductive Duty
  /-- Observers look at what they have been told, and may answer with calls. -/
  | heed (m : Moment)
  /-- A call whose announcement is over sees to it that there is a worker. -/
  | kick

/-- What comes after the effects of a stretch. -/
inductive Sequel
  | next (line : Line) (i : Instruction) (p : Progress)
  | stumble (line : Line) (f : Fault)
  /-- The effects were those of a reset. -/
  | rest

/-- Where the worker is. -/
inductive Phase
  /-- No turn is in progress. -/
  | resting
  /-- Between two lines. -/
  | taking
  /-- A line has been announced and is to be executed. -/
  | executing (line : Line)
  | showing (es : List Effect) (s : Sequel)
  /-- The result of a line has been told. -/
  | telling
  /-- A line has been given up and still has its token. -/
  | releasing (line : Line)
  /-- The end has been announced, with or without a fault. -/
  | leaving (failed : Bool)

structure Instant where
  queue : Queue
  duties : List Duty
  phase : Phase

namespace Queue

/-- A new status, before it is announced. -/
def shift (status : Status) (q : Queue) : Queue :=
  let q := if q.status = status then q
    else q.log .info ("Queue " ++ q.status.name ++ " -> " ++ status.name)
  { q with status, settled := status ≠ .running }

/-- All put back, and other lines pending. -/
def renew (reason : String) (pending : List Line) (q : Queue) : Queue :=
  { q.cancelInFlight reason with
    pending, current := none, fault := none, interpreter := q.interpreter.reset }

/-- A line given up, before this is announced. -/
def giveUp (q : Queue) (line : Line) : Queue :=
  let reason := (q.token.bind (·.reason)).getD .null
  let q := q.log .info ("Abandoned in-flight instruction " ++ line.literal ++ " (" ++ reason.plain
    ++ ")")
  { q with current := none }

/-- A fault noted, before the status tells it. -/
def blame (q : Queue) (f : Fault) : Queue :=
  let q := q.log .info ("Instruction " ++ q.shownCurrent.literal ++ " failed: " ++ f.message)
  { q with fault := some f }

/-- Notes a fault that no instruction is expected to have. -/
def wonder (q : Queue) (line : Line) (f : Fault) : Queue :=
  if f.isInstruction then q else q.log .error ("Unexpected failure executing " ++ line.literal)

/-- A line done, before its result is told. -/
def tally (q : Queue) (r : StepResult) : Queue :=
  { q with token := none, current := none, completed := q.completed.push r }

/-- A line taken, before it is announced. -/
def pick (q : Queue) (line : Line) (pending : List Line) : Queue :=
  { q with pending, token := some .fresh, current := some line }

end Queue

namespace Instant

/-- No turn is in progress, and nothing is left to do. -/
structure IsQuiet (m : Instant) : Prop where
  duties : m.duties = []
  phase : m.phase = .resting

def ofQueue (q : Queue) : Instant := ⟨q, [], .resting⟩

def announce (q : Queue) (ds : List Duty) (p : Phase) : Instant :=
  ⟨q.record (.state q.snapshot), .heed .status :: ds, p⟩

/-- A control call up to its announcement. -/
def call (q : Queue) (ds : List Duty) (p : Phase) : Call → Instant
  | .run lines => announce ((q.renew Queue.runReason lines).shift .running) (.kick :: ds) p
  | .enqueue line => announce { q with pending := q.pending ++ [line] } (.kick :: ds) p
  | .setQueue lines => announce { q with pending := lines } (.kick :: ds) p
  | .start =>
    match q.status with
    | .idle => announce (q.shift .running) (.kick :: ds) p
    | .paused => announce (q.shift .running) (.kick :: ds) p
    | _ => ⟨q, ds, p⟩
  | .pause =>
    match q.status with
    | .running => announce ((q.cancelInFlight "paused").shift .paused) ds p
    | _ => ⟨q, ds, p⟩
  | .resume =>
    match q.status with
    | .paused => announce (q.shift .running) (.kick :: ds) p
    | _ => ⟨q, ds, p⟩
  | .stop => announce ((q.renew "stopped" []).shift .idle) ds p

def complete (q : Queue) (r : StepResult) : Instant :=
  ⟨(q.tally r).record (.step r), [.heed .step], .telling⟩

def abandon (q : Queue) (line : Line) : Instant := announce (q.giveUp line) [] (.releasing line)

def fail (q : Queue) (f : Fault) : Instant :=
  announce ((q.blame f).shift .error) [] (.leaving true)

def finish (q : Queue) : Instant :=
  match q.interpreter.checkBalanced with
  | .error f => fail q f
  | .ok () => announce (q.shift .idle) [] (.leaving false)

def stumble (q : Queue) (line : Line) (f : Fault) : Instant :=
  match f with
  | .cancelled _ => abandon q line
  | f => fail (q.wonder line f) f

def interrupt (q : Queue) (line : Line) (job : Job) (f : Fault) : Instant :=
  if job.showsCommitted then
    ⟨q, [], .showing [.publish (.still q.engine.committed)] (.stumble line f)⟩
  else stumble q line f

def sleep (q : Queue) (line : Line) (i : Instruction) (job : Job) (seconds : Number) : Instant :=
  match q.tokenCheck with
  | .error f => interrupt q line job f
  | .ok () =>
    if seconds.le (.int 0) then ⟨{ q with worker := .asleep line i job none }, [], .resting⟩
    else
      match Watch.timeAfter q.now q.now seconds with
      | .ok wake => ⟨{ q with worker := .asleep line i job (some wake) }, [], .resting⟩
      | .error f => stumble q line (.number f)

def proceed (q : Queue) (line : Line) (i : Instruction) (s : Stretch) : Instant :=
  ⟨q, [], .showing s.effects (.next line i s.next)⟩

def meet (q : Queue) (line : Line) (i : Instruction) : Demand → Instant
  | .finished r => complete q r
  | .act a => proceed q line i (q.engine.begin a)
  | .wait seconds => sleep q line i .wait seconds

def execute (q : Queue) (line : Line) : Instant :=
  let o := q.interpreter.openLine (q.token.getD .fresh)
    (.ofStance q.engine.world q.engine.committed) line.plain
  let q := q.heed o
  match o.result with
  | .error f => stumble q line f
  | .ok (i, d, branches) =>
    meet { q with interpreter := { q.interpreter with branches } } line i d

def take (q : Queue) : Instant :=
  match q.status with
  | .running =>
    match q.pending with
    | [] => finish q
    | line :: pending => announce (q.pick line pending) [] (.executing line)
  | _ => ⟨{ q with worker := .absent }, [], .resting⟩

def wake (q : Queue) (line : Line) (i : Instruction) (job : Job) : Instant :=
  match q.tokenCheck with
  | .error f => interrupt q line job f
  | .ok () =>
    match job with
    | .act a => proceed q line i (q.engine.resume a)
    | .wait => complete q (.plain i)

/-- One effect. Observers are told of a frame. -/
def display (q : Queue) (e : Effect) (p : Phase) : Instant :=
  let q := { q with engine := q.engine.apply e }
  match e with
  | .remark r => ⟨q.log (if r.isNews then .info else .debug) r.message, [], p⟩
  | e =>
    match Engine.frameOf? e with
    | some f =>
      ⟨({ q with frames := q.frames+1 } : Queue).record (.frame q.now f), [.heed .frame], p⟩
    | none => ⟨q, [], p⟩

def follow (q : Queue) : Sequel → Instant
  | .next line i (.pause seconds a) => sleep q line i (.act a) seconds
  | .next _ i (.done a) => complete q (.ofAnswer i a)
  | .next line _ (.failed f) => stumble q line f
  | .stumble line f => stumble q line f
  | .rest => ofQueue q

/-- The turn goes on after its duties. -/
def advance (q : Queue) : Phase → Instant
  | .resting => ofQueue q
  | .taking => take q
  | .executing line => execute q line
  | .showing [] s => follow q s
  | .showing (e :: es) s => display q e (.showing es s)
  | .telling => announce q [] .taking
  | .releasing _ => ⟨{ q with token := none }, [], .taking⟩
  | .leaving failed =>
    ofQueue { q with token := if failed then none else q.token, worker := .absent }

/-- A turn up to its first announcement. -/
def begin (q : Queue) : Turn → Instant
  | .call c => call q [] .resting c
  | .given isRun v =>
    match v.parts with
    | .ok lines => call q [] .resting (if isRun then .run lines else .setQueue lines)
    | .error _ => ofQueue (if isRun then q.cancelInFlight Queue.runReason else q)
  | .reset pose =>
    match q.engine.resetStance pose with
    | .ok s => ⟨q, [], .showing [.commit s] .rest⟩
    | .error _ => ofQueue q
  | .work =>
    match q.worker with
    | .fresh => ⟨{ q with worker := .busy }, [], .taking⟩
    | .asleep line i job _ => wake { q with worker := .busy } line i job
    | _ => ofQueue q
  | t => ofQueue (q.turn t)

/-- From one instant to another, on account of a turn or of a call that an observer makes, or of
what is left to do. -/
inductive Step : Instant → Option Turn → Instant → Prop
  | turn (q : Queue) (t : Turn) : Step (ofQueue q) (some t) (begin q t)
  | answer (q : Queue) (m : Moment) (ds : List Duty) (p : Phase) (c : Call) :
    Step ⟨q, .heed m :: ds, p⟩ (some (.call c)) (call q (.heed m :: ds) p c)
  /-- Observers may have been told beforehand what to do; this binds nobody. -/
  | order (q : Queue) (m : Moment) (ds : List Duty) (p : Phase) (os : List Order) :
    Step ⟨q, .heed m :: ds, p⟩ none ⟨{ q with orders := os }, .heed m :: ds, p⟩
  | heeded (q : Queue) (m : Moment) (ds : List Duty) (p : Phase) :
    Step ⟨q, .heed m :: ds, p⟩ none ⟨q, ds, p⟩
  | kick (q : Queue) (ds : List Duty) (p : Phase) : Step ⟨q, .kick :: ds, p⟩ none ⟨q.kick, ds, p⟩
  | advance (q : Queue) {p : Phase} (hp : p ≠ .resting) : Step ⟨q, [], p⟩ none (advance q p)

/-- A passage from one instant to another whose steps are all admitted. -/
inductive Passes (P : Instant → Option Turn → Prop) (m : Instant) : Instant → Prop
  | refl : Passes P m m
  | step {n r : Instant} {l : Option Turn} (h : Passes P m n) (hs : Step n l r) (hl : P n l) :
    Passes P m r

/-- Any step is admitted. -/
def Any (_ : Instant) (_ : Option Turn) : Prop := True

namespace Passes

variable {P Q : Instant → Option Turn → Prop} {m n r : Instant}

theorem trans (h : Passes P m n) (g : Passes P n r) : Passes P m r := by
  induction g with
  | refl => exact h
  | step _ hs hl ih => exact ih.step hs hl

theorem single {l : Option Turn} (hs : Step m l n) (hl : P m l) : Passes P m n :=
  .step .refl hs hl

theorem mono (h : Passes P m n) (hpq : ∀ b l, P b l → Q b l) : Passes Q m n := by
  induction h with
  | refl => exact .refl
  | step _ hs hl ih => exact ih.step hs (hpq _ _ hl)

/-- What every admitted step preserves holds after a passage. -/
theorem preserves {I : Instant → Prop} (h : Passes P m n) (hm : I m)
    (hstep : ∀ {b r l}, I b → Step b l r → P b l → I r) : I n := by
  induction h with
  | refl => exact hm
  | step _ hs hl ih => exact hstep ih hs hl

end Passes

/-- A call is made where the queue is. -/
theorem step_call {m n : Instant} {c : Call} (h : Step m (some (.call c)) n) :
    n = call m.queue m.duties m.phase c := by
  cases h with
  | turn q t => rfl
  | answer q moment ds p c => rfl

-- What a call leaves alone up to its announcement.

theorem shift_eq (status : Status) (q : Queue) :
    ∃ a, q.shift status = { q with status, settled := status ≠ .running, trace := a } := by
  unfold Queue.shift
  dsimp only
  split <;> exact ⟨_, rfl⟩

theorem controlled_shift (status : Status) (q : Queue) : Queue.Controlled q (q.shift status) := by
  obtain ⟨a, he⟩ := shift_eq status q
  rw [he]
  exact ⟨rfl, rfl, rfl, rfl, rfl, rfl, .inl rfl⟩

theorem controlled_renew (reason : String) (pending : List Line) (q : Queue) :
    Queue.Controlled q (q.renew reason pending) :=
  .trans (Queue.controlled_cancelInFlight q reason) ⟨rfl, rfl, rfl, rfl, rfl, rfl, .inl rfl⟩

variable (q : Queue) (ds : List Duty) (p : Phase) (c : Call)

theorem phase_call : (call q ds p c).phase = p := by
  cases c <;> simp only [call] <;> first | rfl | (split <;> rfl)

theorem controlled_call : Queue.Controlled q (call q ds p c).queue := by
  have ha {r : Queue} (h : Queue.Controlled q r) (ds : List Duty) :
      Queue.Controlled q (announce r ds p).queue :=
    h.trans (Queue.controlled_record r _)
  have hs (status : Status) : Queue.Controlled q (q.shift status) := controlled_shift status q
  have hp (pending : List Line) : Queue.Controlled q { q with pending } :=
    ⟨rfl, rfl, rfl, rfl, rfl, rfl, .inl rfl⟩
  cases c with
  | run lines => exact ha ((controlled_renew _ lines q).trans (controlled_shift _ _)) _
  | enqueue line => exact ha (hp _) _
  | setQueue lines => exact ha (hp _) _
  | start =>
    simp only [call]
    split
    · exact ha (hs _) _
    · exact ha (hs _) _
    · exact .refl q
  | pause =>
    simp only [call]
    split
    · exact ha ((Queue.controlled_cancelInFlight q _).trans (controlled_shift _ _)) _
    · exact .refl q
  | resume =>
    simp only [call]
    split
    · exact ha (hs _) _
    · exact .refl q
  | stop => exact ha ((controlled_renew _ [] q).trans (controlled_shift _ _)) _

end Instant

end Courier
