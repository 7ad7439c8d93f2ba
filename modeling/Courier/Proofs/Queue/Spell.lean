import Courier.Proofs.Engine.Conclusion
import Courier.Proofs.Instruction.Reading
import Courier.Proofs.Queue.Control

namespace Courier

/-- What a spell of work on a line comes to. -/
inductive Upshot
  | pause (seconds : Number) (i : Instruction) (job : Job)
  | result (r : StepResult)
  | fault (f : Fault)

/-- What the worker does with a line between two pauses. -/
structure Spell where
  branches : List Bool
  effects : List Effect
  upshot : Upshot

namespace Spell

/-- A pause, unless there is no time to pause until. -/
def resting (seconds : Number) (i : Instruction) (job : Job) : Upshot :=
  match seconds.checkPause with
  | .ok () => .pause seconds i job
  | .error f => .fault (.number f)

def ofStretch (branches : List Bool) (i : Instruction) (s : Stretch) : Spell where
  branches
  effects := s.effects
  upshot := match s.next with
    | .pause seconds a => resting seconds i (.act a)
    | .done a => .result (.ofAnswer i a)
    | .failed f => .fault f

/-- How a line begins that no cancellation meets. -/
def opening (t : Interpreter) (e : Engine) (line : Line) : Opening :=
  t.openLine .fresh (.ofStance e.world e.committed) line.plain

/-- The spell that an opening leads to, `branches` being open before. -/
def ofOpening (branches : List Bool) (e : Engine) :
    Except Fault (Instruction × Demand × List Bool) → Spell
  | .error f => ⟨branches, [], .fault f⟩
  | .ok (_, .finished r, branches) => ⟨branches, [], .result r⟩
  | .ok (i, .act a, branches) => ofStretch branches i (e.begin a)
  | .ok (i, .wait seconds, branches) => ⟨branches, [], resting seconds i .wait⟩

def first (t : Interpreter) (e : Engine) (line : Line) : Spell :=
  ofOpening t.branches e (opening t e line).result

def next (t : Interpreter) (e : Engine) (i : Instruction) (job : Job) : Spell :=
  match job with
  | .act a => ofStretch t.branches i (e.resume a)
  | .wait => ⟨t.branches, [], .result (.plain i)⟩

end Spell

/-- Neither an announcement nor a result. -/
def Event.IsAside : Event → Prop
  | .state _ => False
  | .step _ => False
  | _ => True

/-- A trace that goes on with asides only. -/
def Asides (a b : Array Event) : Prop :=
  ∃ es : List Event, (∀ e ∈ es, e.IsAside) ∧ b.toList = a.toList ++ es

namespace Asides

theorem refl (a : Array Event) : Asides a a := ⟨[], by simp, by simp⟩

theorem trans {a b c : Array Event} (h : Asides a b) (g : Asides b c) : Asides a c := by
  obtain ⟨es, he, hb⟩ := h
  obtain ⟨fs, hf, hc⟩ := g
  refine ⟨es ++ fs, ?_, by rw [hc, hb, List.append_assoc]⟩
  intro e hm
  rcases List.mem_append.mp hm with hm | hm
  · exact he e hm
  · exact hf e hm

theorem push {a b : Array Event} (h : Asides a b) {e : Event} (he : e.IsAside) :
    Asides a (b.push e) :=
  h.trans ⟨[e], by simpa using he, by simp⟩

theorem log (a : Array Event) (level : LogLevel) (text : String) :
    Asides a (a.push (.log level text)) := .push (.refl a) trivial

theorem frame (a : Array Event) (time : Binary64) (f : Frame) :
    Asides a (a.push (.frame time f)) := .push (.refl a) trivial

theorem evaluated (a : Array Event) (label : String) :
    Asides a (a.push (.evaluated label)) := .push (.refl a) trivial

end Asides

namespace Queue

/-- The time at which a pause ends, none for a pause without length. -/
def wakeAfter (q : Queue) (seconds : Number) : Option Binary64 :=
  if seconds.le (.int 0) then none else (Watch.timeAfter q.now q.now seconds).toOption

def perform (q : Queue) (sp : Spell) : Queue :=
  applyAll { q with interpreter := { q.interpreter with branches := sp.branches } } sp.effects

/-- The worker's way through a spell; the result tells whether it goes on. -/
def enact (q : Queue) (line : Line) (sp : Spell) : Queue × Bool :=
  match sp.upshot with
  | .pause seconds i job =>
    ({ q.perform sp with worker := .asleep line i job ((q.perform sp).wakeAfter seconds) }, false)
  | .result r => ((q.perform sp).complete r, true)
  | .fault f => (q.perform sp).stumble line f

section Quiet

variable {q : Queue}

theorem react_quiet (ho : q.orders = []) (answer : Call → Queue → Queue) (o : Occasion) :
    q.react answer o = q := by
  simp [react, ho, reactWithin]

theorem announce_quiet (ho : q.orders = []) (answer : Call → Queue → Queue) :
    q.announce answer = q.record (.state q.snapshot) := by
  have hr : (q.record (.state q.snapshot)).orders = [] := ho
  unfold announce
  simp only [react_quiet hr]

theorem become_quiet (ho : q.orders = []) (answer : Call → Queue → Queue) (status : Status) :
    ∃ a, Asides q.trace a ∧ q.become answer status =
      { q with
        status
        settled := status ≠ .running
        trace := a.push (.state ⟨q.pending, q.current, status⟩) } := by
  unfold become
  dsimp only
  split
  · have hs : ({ q with status, settled := status ≠ .running } : Queue).orders = [] := ho
    rw [announce_quiet hs]
    exact ⟨q.trace, .refl _, rfl⟩
  · rw [announce_quiet (by exact ho)]
    exact ⟨_, .log _ _ _, rfl⟩

theorem complete_quiet (ho : q.orders = []) (r : StepResult) :
    q.complete r =
      { q with
        token := none
        current := none
        completed := q.completed.push r
        trace := (q.trace.push (.step r)).push (.state ⟨q.pending, none, q.status⟩) } := by
  have hs : ({ q with token := none, current := none, completed := q.completed.push r
               }.record (.step r)).orders = [] := ho
  unfold complete
  dsimp only
  rw [react_quiet hs, announce_quiet hs]
  rfl

theorem abandon_quiet (ho : q.orders = []) (line : Line) :
    ∃ a, Asides q.trace a ∧ q.abandon line =
      { q with
        token := none
        current := none
        trace := a.push (.state ⟨q.pending, none, q.status⟩) } := by
  unfold abandon
  dsimp only
  rw [announce_quiet (by exact ho)]
  exact ⟨_, .log _ _ _, rfl⟩

theorem fail_quiet (ho : q.orders = []) (f : Fault) :
    ∃ a, Asides q.trace a ∧ q.fail f =
      { q with
        fault := some f
        status := .error
        settled := true
        token := none
        worker := .absent
        trace := a.push (.state ⟨q.pending, q.current, .error⟩) } := by
  unfold fail
  dsimp only
  generalize "Instruction " ++ _ ++ _ ++ _ = text
  have hs : ({ q.log .info text with fault := some f } : Queue).orders = [] := ho
  obtain ⟨a, ha, hb⟩ := become_quiet hs call .error
  rw [hb]
  exact ⟨a, .trans (.log _ _ _) ha, rfl⟩

theorem finish_quiet (ho : q.orders = []) :
    (∃ f a, q.interpreter.checkBalanced = .error f ∧ Asides q.trace a ∧ q.finish =
      { q with
        fault := some f
        status := .error
        settled := true
        token := none
        worker := .absent
        trace := a.push (.state ⟨q.pending, q.current, .error⟩) }) ∨
    (∃ a, q.interpreter.checkBalanced = .ok () ∧ Asides q.trace a ∧ q.finish =
      { q with
        status := .idle
        settled := true
        worker := .absent
        trace := a.push (.state ⟨q.pending, q.current, .idle⟩) }) := by
  unfold finish
  cases hb : q.interpreter.checkBalanced with
  | error f =>
    obtain ⟨a, ha, he⟩ := fail_quiet ho f
    exact .inl ⟨f, a, rfl, ha, he⟩
  | ok u =>
    obtain ⟨a, ha, he⟩ := become_quiet ho call .idle
    refine .inr ⟨a, rfl, ha, ?_⟩
    rw [he]
    rfl

theorem apply_quiet (ho : q.orders = []) (e : Effect) :
    ∃ n a, Asides q.trace a ∧ q.apply e =
      { q with engine := q.engine.apply e, frames := n, trace := a } := by
  cases e with
  | publish f =>
    unfold apply
    dsimp only [Engine.frameOf?]
    rw [react_quiet (by exact ho)]
    exact ⟨_, _, .frame _ _ _, rfl⟩
  | commit s =>
    unfold apply
    dsimp only [Engine.frameOf?]
    rw [react_quiet (by exact ho)]
    exact ⟨_, _, .frame _ _ _, rfl⟩
  | complete => exact ⟨q.frames, q.trace, .refl _, rfl⟩
  | remark r => exact ⟨_, _, .log _ _ _, rfl⟩

theorem applyAll_quiet (ho : q.orders = []) (es : List Effect) :
    ∃ n a, Asides q.trace a ∧ q.applyAll es =
      { q with engine := q.engine.applyAll es, frames := n, trace := a } := by
  induction es generalizing q with
  | nil => exact ⟨q.frames, q.trace, .refl _, rfl⟩
  | cons e es ih =>
    obtain ⟨n, a, ha, he⟩ := apply_quiet ho e
    have hs : (q.apply e).orders = [] := by rw [he]; exact ho
    obtain ⟨k, b, hb, hr⟩ := ih hs
    rw [he] at hb hr
    refine ⟨k, b, ha.trans hb, ?_⟩
    change (q.apply e).applyAll es = _
    rw [he]
    exact hr

theorem perform_quiet (ho : q.orders = []) (sp : Spell) :
    ∃ n a, Asides q.trace a ∧ q.perform sp =
      { q with
        interpreter := { q.interpreter with branches := sp.branches }
        engine := q.engine.applyAll sp.effects
        frames := n
        trace := a } :=
  applyAll_quiet (q := { q with interpreter := { q.interpreter with branches := sp.branches } })
    ho sp.effects

theorem heed_quiet (o : Opening) : ∃ a, Asides q.trace a ∧ q.heed o = { q with trace := a } := by
  unfold heed
  cases o.evaluated <;> cases o.skipped
  · exact ⟨_, .refl _, rfl⟩
  · exact ⟨_, .log _ _ _, rfl⟩
  · exact ⟨_, .evaluated _ _, rfl⟩
  · exact ⟨_, .trans (.evaluated _ _) (.log _ _ _), rfl⟩

/-- A fault that is no cancellation ends the run. -/
theorem stumble_quiet (ho : q.orders = []) (line : Line) {f : Fault}
    (hf : ∀ reason, f ≠ .cancelled reason) :
    ∃ a, Asides q.trace a ∧ q.stumble line f =
      ({ q with
        fault := some f
        status := .error
        settled := true
        token := none
        worker := .absent
        trace := a.push (.state ⟨q.pending, q.current, .error⟩) }, false) := by
  unfold stumble
  split
  · next reason => exact absurd rfl (hf reason)
  · dsimp only
    split
    · obtain ⟨a, ha, he⟩ := fail_quiet ho f
      exact ⟨a, ha, by rw [he]⟩
    · generalize "Unexpected failure executing " ++ line.literal = text
      obtain ⟨a, ha, he⟩ := fail_quiet (q := q.log .error text) ho f
      exact ⟨a, .trans (.log _ _ _) ha, by rw [he]; rfl⟩

theorem stumble_cancelled (line : Line) (reason : String) :
    q.stumble line (.cancelled reason) = (q.abandon line, true) := rfl

/-- A token that is not cancelled lets the worker fall asleep, if there is a time to sleep until. -/
theorem sleep_eq (ht : q.tokenCheck = .ok ()) (line : Line) (i : Instruction) (job : Job)
    (seconds : Number) :
    q.sleep line i job seconds =
      match seconds.checkPause with
      | .ok () => ({ q with worker := .asleep line i job (q.wakeAfter seconds) }, false)
      | .error f => q.stumble line (.number f) := by
  unfold sleep
  rw [ht]
  dsimp only
  unfold Number.checkPause wakeAfter
  split
  · rfl
  · rw [Watch.timeAfter_eq]
    cases seconds.toBinary64 <;> rfl

theorem proceed_eq (ho : q.orders = []) (ht : q.tokenCheck = .ok ()) (line : Line)
    (i : Instruction) (s : Stretch) :
    q.proceed line i s = q.enact line (.ofStretch q.interpreter.branches i s) := by
  have hp : q.perform (.ofStretch q.interpreter.branches i s) = q.applyAll s.effects := rfl
  obtain ⟨n, a, ha, he⟩ := applyAll_quiet ho s.effects
  have hc : (q.applyAll s.effects).tokenCheck = .ok () := by rw [he]; exact ht
  unfold proceed enact
  rw [hp]
  dsimp only [Spell.ofStretch]
  cases s.next with
  | pause seconds b =>
    dsimp only
    rw [sleep_eq hc]
    unfold Spell.resting
    cases seconds.checkPause <;> rfl
  | done b => rfl
  | failed f => rfl

theorem execute_eq (ho : q.orders = []) (ht : q.token = some .fresh) (line : Line) :
    q.execute line =
      (q.heed (Spell.opening q.interpreter q.engine line)).enact line
        (.first q.interpreter q.engine line) := by
  have hopen : q.interpreter.openLine (q.token.getD .fresh)
      (.ofStance q.engine.world q.engine.committed) line.plain =
      Spell.opening q.interpreter q.engine line := by
    rw [ht]; rfl
  obtain ⟨a, ha, hh⟩ := heed_quiet (q := q) (Spell.opening q.interpreter q.engine line)
  unfold execute
  rw [hopen]
  dsimp only
  rw [hh]
  unfold Spell.first
  cases (Spell.opening q.interpreter q.engine line).result with
  | error f => rfl
  | ok r =>
    obtain ⟨i, d, branches⟩ := r
    cases d with
    | finished s => rfl
    | act b =>
      dsimp only
      rw [proceed_eq (by exact ho) (by simp [tokenCheck, ht, Token.check, Token.fresh])]
      rfl
    | wait seconds =>
      dsimp only
      rw [sleep_eq (by simp [tokenCheck, ht, Token.check, Token.fresh])]
      dsimp only [enact, Spell.ofOpening, Spell.resting]
      cases seconds.checkPause <;> rfl

/-- The worker that wakes up enacts the next spell, unless the token was cancelled. -/
theorem wakeUp_eq (ho : q.orders = []) (ht : q.tokenCheck = .ok ()) (line : Line)
    (i : Instruction) (job : Job) :
    q.wakeUp line i job = q.enact line (.next q.interpreter q.engine i job) := by
  unfold wakeUp
  rw [ht]
  cases job with
  | act a =>
    dsimp only
    rw [proceed_eq ho ht]
    rfl
  | wait => rfl

theorem tokenCheck_some {token : Token} (ht : q.token = some token) :
    q.tokenCheck = token.check := by
  simp [tokenCheck, ht]

/-- A worker that finds its token cancelled drops the line, whatever it pauses in, and goes on. -/
theorem wakeUp_cancelled {token : Token} (ht : q.token = some token) (hc : token.isCancelled)
    (line : Line) (i : Instruction) (job : Job) :
    q.wakeUp line i job =
      ((q.applyAll (if job.showsCommitted then [.publish (.still q.engine.committed)]
        else [])).abandon line, true) := by
  have hf : ∃ reason, token.check = .error (.cancelled reason) := by
    obtain ⟨r, hr⟩ := Option.isSome_iff_exists.mp hc
    simp [Token.check, hr]
  obtain ⟨reason, hf⟩ := hf
  unfold wakeUp interrupt
  rw [tokenCheck_some ht, hf]
  dsimp only
  cases job.showsCommitted <;> rfl

/-- Then all that changes is what was shown and announced, and that no line is current. -/
theorem wakeUp_dropped (ho : q.orders = []) {token : Token} (ht : q.token = some token)
    (hc : token.isCancelled) (line : Line) (i : Instruction) (job : Job) :
    ∃ shown n a, Asides q.trace a ∧ q.wakeUp line i job =
      ({ q with
        engine := { q.engine with shown }, frames := n, token := none, current := none
        trace := a.push (.state ⟨q.pending, none, q.status⟩) }, true) := by
  rw [wakeUp_cancelled ht hc]
  cases job.showsCommitted with
  | false =>
    obtain ⟨a, ha, he⟩ := abandon_quiet ho line
    exact ⟨q.engine.shown, q.frames, a, ha, congrArg (·, true) he⟩
  | true =>
    obtain ⟨n, x, hx, hp⟩ := applyAll_quiet ho [.publish (.still q.engine.committed)]
    have hpo : (q.applyAll [.publish (.still q.engine.committed)]).orders = [] := by
      rw [hp]
      exact ho
    obtain ⟨a, ha, he⟩ := abandon_quiet hpo line
    rw [hp] at ha he
    refine ⟨.still q.engine.committed, n, a, hx.trans ha, ?_⟩
    rw [if_pos rfl, hp]
    exact congrArg (·, true) he

theorem dispatch_quiet (ho : q.orders = []) (line : Line) (pending : List Line) :
    q.dispatch line pending =
      { q with
        pending
        token := some .fresh
        current := some line
        trace := q.trace.push (.state ⟨pending, some line, q.status⟩) } := by
  unfold dispatch
  rw [announce_quiet (by exact ho)]
  rfl

/-- No spell touches the lines pending or brings in orders. -/
theorem enact_frame (ho : q.orders = []) (line : Line) (sp : Spell) :
    (q.enact line sp).1.orders = [] ∧ (q.enact line sp).1.pending = q.pending := by
  obtain ⟨n, a, _, he⟩ := perform_quiet ho sp
  have hp : (q.perform sp).orders = [] := by rw [he]; exact ho
  have hq : (q.perform sp).pending = q.pending := by rw [he]
  unfold enact
  cases sp.upshot with
  | pause seconds i job => exact ⟨hp, hq⟩
  | result r =>
    dsimp only
    rw [complete_quiet hp]
    exact ⟨hp, hq⟩
  | fault f =>
    dsimp only
    by_cases hf : ∃ reason, f = .cancelled reason
    · obtain ⟨reason, rfl⟩ := hf
      obtain ⟨b, _, hb⟩ := abandon_quiet hp line
      rw [stumble_cancelled, hb]
      exact ⟨hp, hq⟩
    · obtain ⟨b, _, hb⟩ := stumble_quiet hp line (fun reason hr => hf ⟨reason, hr⟩)
      rw [hb]
      exact ⟨hp, hq⟩

theorem execute_frame (ho : q.orders = []) (ht : q.token = some .fresh) (line : Line) :
    (q.execute line).1.orders = [] ∧ (q.execute line).1.pending = q.pending := by
  rw [execute_eq ho ht]
  obtain ⟨a, _, he⟩ := heed_quiet (q := q) (Spell.opening q.interpreter q.engine line)
  rw [he]
  exact enact_frame (q := { q with trace := a }) ho line _

theorem takeLine_nil (hs : q.status = .running) (hp : q.pending = []) :
    q.takeLine = (q.finish, false) := by
  simp only [takeLine, hs, hp]

theorem takeLine_cons {line : Line} {pending : List Line} (hs : q.status = .running)
    (hp : q.pending = line :: pending) : q.takeLine = (q.dispatch line pending).execute line := by
  simp only [takeLine, hs, hp]

theorem takeLine_stopped (hs : q.status ≠ .running) :
    q.takeLine = ({ q with worker := .absent }, false) := by
  unfold takeLine
  split
  · next hq => exact absurd hq hs
  · rfl

/-- What holds when lines are taken one after another: `I` between two of them, `P` at the end. -/
theorem takeLines_induction {I P : Queue → Prop} (quiet : ∀ q, I q → q.orders = [])
    (stop : ∀ q, I q → q.status ≠ .running → P { q with worker := .absent })
    (finish : ∀ q, I q → q.status = .running → q.pending = [] → P q.finish)
    (take : ∀ q line pending, I q → q.status = .running → q.pending = line :: pending →
      ∀ r, ((q.dispatch line pending).execute line = (r, true) → I r) ∧
        ((q.dispatch line pending).execute line = (r, false) → P r))
    (h : I q) {bound : Nat} (hb : q.pending.length < bound) : P (q.takeLines bound) := by
  induction bound generalizing q with
  | zero => omega
  | succ bound ih =>
    have ho := quiet q h
    unfold takeLines
    by_cases hs : q.status = .running
    · cases hp : q.pending with
      | nil =>
        rw [takeLine_nil hs hp]
        exact finish q h hs hp
      | cons line pending =>
        have hd := dispatch_quiet ho line pending
        obtain ⟨_, hpend⟩ := execute_frame (q := q.dispatch line pending) (by rw [hd]; exact ho)
          (by rw [hd]) line
        rw [takeLine_cons hs hp]
        split
        · next r hr =>
          refine ih ((take q line pending h hs hp r).1 hr) ?_
          rw [hr, hd] at hpend
          rw [hp] at hb
          rw [show r.pending = pending from hpend]
          simpa using hb
        · next r hr => exact (take q line pending h hs hp r).2 hr
    · rw [takeLine_stopped hs]
      exact stop q h hs

theorem call_quiet (ho : q.orders = []) (c : Call) : q.call c = q.callVia (fun _ r => r) c := by
  simp [call, ho, callWithin]

/-- A queue on which a run was called, before its worker is called up. -/
def begun (q : Queue) (lines : List Line) (a : Array Event) : Queue :=
  { q.cancelInFlight runReason with
    pending := lines, current := none, fault := none, interpreter := q.interpreter.reset
    status := .running, settled := false, trace := a.push (.state ⟨lines, none, .running⟩) }

theorem run_quiet (ho : q.orders = []) (lines : List Line) :
    ∃ a, Asides q.trace a ∧ q.call (.run lines) = (q.begun lines a).kick := by
  let p : Queue := { q.cancelInFlight runReason with
    pending := lines, current := none, fault := none, interpreter := q.interpreter.reset }
  obtain ⟨a, ha, hp⟩ := become_quiet (q := p) ho (fun _ r => r) .running
  refine ⟨a, ha, ?_⟩
  rw [call_quiet ho]
  change (p.become (fun _ r => r) .running).kick = _
  rw [hp]
  rfl

theorem settled_run (ho : q.orders = []) (lines : List Line) :
    (q.call (.run lines)).settled = decide ((q.call (.run lines)).status ≠ .running) := by
  obtain ⟨a, _, hr⟩ := run_quiet ho lines
  rw [hr]
  unfold kick
  split <;> rfl

theorem backlog_quiet (ho : q.orders = []) : q.backlog = q.pending := by
  simp [backlog, ho]

end Quiet

end Queue

-- Only the worker's own token cancels a line, as long as the conditions keep out of it.

/-- Conditions that never claim to be cancelled. -/
def Interpreter.IsHonest (t : Interpreter) : Prop :=
  ∀ name c, Json.lookup t.conditions name = some c →
    ∀ w s reason, c.test (.ofStance w s) ≠ .error (.cancelled reason)

theorem Condition.lookup_standard {name : String} {c : Condition}
    (h : Json.lookup standard name = some c) : c = .isWallAhead ∨ ∃ b, c = .constant b := by
  obtain ⟨r, hs, rfl⟩ := Json.mem_of_lookup h
  simp only [standard, List.mem_cons, List.not_mem_nil, or_false] at hs
  rcases hs with rfl | rfl | rfl
  · exact .inl rfl
  · exact .inr ⟨true, rfl⟩
  · exact .inr ⟨false, rfl⟩

/-- The standard conditions can be tested wherever the agent stands. -/
theorem Condition.test_standard {name : String} {c : Condition}
    (h : Json.lookup standard name = some c) (w : World) (s : Stance) :
    ∃ value, c.test (.ofStance w s) = .ok value := by
  rcases lookup_standard h with rfl | ⟨b, rfl⟩
  · exact ⟨w.isWall (s.ahead 1), rfl⟩
  · exact ⟨b, rfl⟩

theorem Interpreter.make_isHonest (settings : WaitSettings) : (make settings []).IsHonest := by
  intro name c hc w s reason
  obtain ⟨value, hv⟩ := Condition.test_standard hc w s
  rw [hv]
  simp

namespace Action

variable {m : MotionSettings} {w : World} {s : Stance}

theorem pause_failed {seconds : Except NumberFault Number} {a : Activity} {f : Fault}
    (h : (Stretch.pause seconds a).next = .failed f) : ∃ n, f = .number n := by
  cases seconds with
  | error n => exact ⟨n, (Progress.failed.inj h).symm⟩
  | ok t => cases h

theorem glide_failed {origin target : Stance} {t : Option Trek} {f : Fault}
    (h : (glide m origin target t).next = .failed f) : ∃ n, f = .number n := by
  unfold glide at h
  split at h
  · next n _ => exact ⟨n, (Progress.failed.inj h).symm⟩
  · exact pause_failed h

theorem stride_failed {t : Trek} {f : Fault} (h : (stride m w s t).next = .failed f) :
    ∃ n, f = .number n := by
  unfold stride at h
  split at h
  · cases h
  · dsimp only at h
    split at h
    · exact glide_failed h
    · cases h

theorem squash_failed {taking : Bool} {f : Fault} (h : (squash m s taking).next = .failed f) :
    ∃ n, f = .number n := by
  unfold squash at h
  split at h
  · exact ⟨_, (Progress.failed.inj h).symm⟩
  · exact ⟨_, (Progress.failed.inj h).symm⟩
  · exact pause_failed h

theorem begin_failed {a : Action} {f : Fault} (h : (a.begin m w s).next = .failed f) :
    ∃ n, f = .number n := by
  cases a with
  | move backward steps => exact stride_failed h
  | turn left => exact glide_failed h
  | pickup =>
    simp only [begin] at h
    split at h
    · cases h
    · split at h
      · exact squash_failed h
      · cases h
  | dropoff =>
    simp only [begin] at h
    split at h
    · split at h
      · exact squash_failed h
      · cases h
    · cases h

theorem resume_failed {a : Activity} {f : Fault} (h : (resume m w s a).next = .failed f) :
    ∃ n, f = .number n := by
  cases a with
  | gliding origin target k trek =>
    simp only [resume] at h
    split at h
    · exact pause_failed h
    · cases trek with
      | none => cases h
      | some t => exact pause_failed h
  | settling t => exact stride_failed h
  | squashing origin k taking =>
    simp only [resume] at h
    split at h
    · exact pause_failed h
    · cases h

end Action

/-- What the opening of an instruction keeps: the instruction, and no cancellation. -/
def Opening.Minds (i : Instruction) (r : Except Fault (Instruction × Demand × List Bool)) : Prop :=
  match r with
  | .error f => ∀ reason, f ≠ .cancelled reason
  | .ok (j, .finished s, _) => j = i ∧ s.instruction = i
  | .ok (j, _, _) => j = i

namespace Interpreter

variable {t : Interpreter}

theorem openBranch_minds (h : t.IsHonest) (w : World) (s : Stance) (i : Instruction)
    (name : String) : Opening.Minds i (t.openBranch (.ofStance w s) i name).result := by
  unfold openBranch
  split
  · simp [Opening.Minds]
  · next c hc =>
    split
    · exact ⟨rfl, rfl⟩
    · cases hv : c.test (.ofStance w s) with
      | error f =>
        intro reason hf
        exact h name c hc w s reason (by rw [hv, hf])
      | ok value => exact ⟨rfl, rfl⟩

theorem demand_minds (i : Instruction) :
    Opening.Minds i ((t.demand i).map (fun d => (i, d, t.branches))) := by
  unfold demand
  split
  case h_7 units _ =>
    cases t.settings.seconds (.int units) with
    | error n => intro reason hf; cases hf
    | ok seconds => rfl
  case h_8 => exact ⟨rfl, rfl⟩
  case h_9 => exact ⟨rfl, rfl⟩
  all_goals rfl

theorem openInstruction_minds (h : t.IsHonest) (w : World) (s : Stance) (i : Instruction) :
    Opening.Minds i (t.openInstruction (.ofStance w s) i).result := by
  unfold openInstruction
  split
  · exact openBranch_minds h w s i _
  · split
    · simp [Opening.Minds]
    · exact ⟨rfl, rfl⟩
  · split
    · exact ⟨rfl, rfl⟩
    · exact demand_minds i

end Interpreter

/-- An upshot that keeps to the instruction that was read, and is no cancellation. -/
def Upshot.Minds (read : Except Fault Instruction) : Upshot → Prop
  | .pause _ i _ => read = .ok i
  | .result r => read = .ok r.instruction
  | .fault f => ∀ reason, f ≠ .cancelled reason

namespace Spell

/-- A spell with such an upshot. -/
structure Minds (read : Except Fault Instruction) (sp : Spell) : Prop where
  upshot : sp.upshot.Minds read

theorem resting_minds (seconds : Number) (i : Instruction) (job : Job) :
    (resting seconds i job).Minds (.ok i) := by
  unfold resting
  cases seconds.checkPause with
  | ok u => rfl
  | error n => intro reason hf; cases hf

theorem ofStretch_minds (branches : List Bool) (i : Instruction) {s : Stretch}
    (hs : ∀ f, s.next = .failed f → ∃ n, f = .number n) :
    Minds (.ok i) (ofStretch branches i s) := by
  refine ⟨?_⟩
  unfold ofStretch
  cases hn : s.next with
  | pause seconds a => exact resting_minds seconds i (.act a)
  | done a => cases a <;> rfl
  | failed f =>
    obtain ⟨n, rfl⟩ := hs f hn
    intro reason hf
    cases hf

theorem first_minds {t : Interpreter} (h : t.IsHonest) (e : Engine) (line : Line) :
    Minds (Instruction.parse line.plain) (first t e line) := by
  unfold first opening Interpreter.openLine
  cases hp : Instruction.parse line.plain with
  | error f =>
    refine ⟨?_⟩
    intro reason hf
    exact Instruction.parse_ne_cancelled line.plain reason (by rw [hp, hf])
  | ok i =>
    have ho := Interpreter.openInstruction_minds h e.world e.committed i
    change Minds (.ok i) (ofOpening t.branches e (t.openInstruction _ i).result)
    unfold ofOpening
    split
    · next f hf => rw [hf] at ho; exact ⟨ho⟩
    · next j r branches hr =>
      rw [hr] at ho
      exact ⟨congrArg Except.ok ho.2.symm⟩
    · next j a branches hr =>
      rw [hr] at ho
      rw [show j = i from ho]
      exact ofStretch_minds branches i (fun f hf => Action.begin_failed hf)
    · next j seconds branches hr =>
      rw [hr] at ho
      rw [show j = i from ho]
      exact ⟨resting_minds seconds i .wait⟩

theorem next_minds (t : Interpreter) (e : Engine) (i : Instruction) (job : Job) :
    Minds (.ok i) (next t e i job) := by
  cases job with
  | act a => exact ofStretch_minds t.branches i (fun f hf => Action.resume_failed hf)
  | wait => exact ⟨rfl⟩

end Spell

end Courier
