import Courier.Proofs.Number.Exact
import Courier.Proofs.Queue.Ledger
import Courier.Proofs.Queue.Settlement

namespace Courier

def Worker.place : Worker → Worker
  | asleep line i job _ => asleep line i job none
  | w => w

/-- Two engines at the same place, one with some more levels completed. -/
structure Engine.Twin (levels : Nat) (e f : Engine) : Prop where
  world : e.world = f.world
  settings : e.settings = f.settings
  committed : e.committed = f.committed
  completed : e.completed = levels + f.completed

theorem Engine.Twin.applyAll {levels : Nat} {e f : Engine} (h : Twin levels e f)
    (es : List Effect) : Twin levels (e.applyAll es) (f.applyAll es) where
  world := by simpa using h.world
  settings := by simpa using h.settings
  committed := by simp [h.committed]
  completed := by simp [h.completed, Nat.add_assoc]

namespace Spell

variable {levels : Nat} {e f : Engine}

theorem first_twin (h : e.Twin levels f) (t : Interpreter) (line : Line) :
    first t e line = first t f line := by
  have ho : opening t e line = opening t f line := by
    simp only [opening, h.world, h.committed]
  have hb (a : Action) : e.begin a = f.begin a := by
    simp only [Engine.begin, h.world, h.settings, h.committed]
  unfold first
  rw [ho]
  generalize (opening t f line).result = r
  unfold ofOpening
  simp only [hb]

theorem next_twin (h : e.Twin levels f) (t : Interpreter) (i : Instruction) (job : Job) :
    next t e i job = next t f i job := by
  have hr (a : Activity) : e.resume a = f.resume a := by
    simp only [Engine.resume, h.world, h.settings, h.committed]
  simp only [next, hr]

end Spell

namespace Queue

/-- Two queues that differ only in what they did and showed before and in time: the first one has
some more results and levels. -/
structure Twin (before : Array StepResult) (levels : Nat) (q r : Queue) : Prop where
  quiet : q.orders = [] ∧ r.orders = []
  interpreter : q.interpreter = r.interpreter
  engine : q.engine.Twin levels r.engine
  pending : q.pending = r.pending
  current : q.current = r.current
  status : q.status = r.status
  fault : q.fault = r.fault
  token : q.token = r.token
  worker : q.worker.place = r.worker.place
  completed : q.completed = before ++ r.completed
  ledger : q.ledger = r.ledger

section Twin

variable {before : Array StepResult} {levels : Nat} {q r : Queue}

theorem ledger_push {x y : Array Event} (h : Asides x y) (s : Snapshot) :
    Ledger.ofEvents (y.push (.state s)).toList = (Ledger.ofEvents x.toList).note (.state s) := by
  obtain ⟨es, he, hy⟩ := h
  rw [Array.toList_push, Ledger.ofEvents_append, hy, Ledger.ofEvents_asides he]
  rfl

theorem Twin.ledger_push (h : Twin before levels q r) {x y : Array Event} {s t : Snapshot}
    (hx : Asides q.trace x) (hy : Asides r.trace y) (hs : s = t) :
    Ledger.ofEvents (x.push (.state s)).toList = Ledger.ofEvents (y.push (.state t)).toList := by
  have hl : Ledger.ofEvents q.trace.toList = Ledger.ofEvents r.trace.toList := h.ledger
  rw [Queue.ledger_push hx, Queue.ledger_push hy, hl, hs]

theorem Twin.complete (h : Twin before levels q r) (s : StepResult) :
    Twin before levels (q.complete s) (r.complete s) := by
  have hl : Ledger.ofEvents q.trace.toList = Ledger.ofEvents r.trace.toList := h.ledger
  rw [complete_quiet h.quiet.1, complete_quiet h.quiet.2]
  refine { h with token := rfl, current := rfl, completed := by simp [h.completed], ledger := ?_ }
  simp [Queue.ledger, Array.toList_push, Ledger.ofEvents_append, hl, h.pending, h.status]

theorem Twin.abandon (h : Twin before levels q r) (line : Line) :
    Twin before levels (q.abandon line) (r.abandon line) := by
  obtain ⟨a, hx, ha⟩ := abandon_quiet h.quiet.1 line
  obtain ⟨b, hy, hb⟩ := abandon_quiet h.quiet.2 line
  rw [ha, hb]
  exact { h with
    token := rfl, current := rfl
    ledger := h.ledger_push hx hy (by rw [h.pending, h.status]) }

theorem Twin.stumble (h : Twin before levels q r) (line : Line) (f : Fault) :
    Twin before levels (q.stumble line f).1 (r.stumble line f).1 ∧
      (q.stumble line f).2 = (r.stumble line f).2 := by
  by_cases hf : ∃ reason, f = .cancelled reason
  · obtain ⟨reason, rfl⟩ := hf
    rw [stumble_cancelled, stumble_cancelled]
    exact ⟨h.abandon line, rfl⟩
  · obtain ⟨a, hx, ha⟩ := stumble_quiet h.quiet.1 line (fun reason hr => hf ⟨reason, hr⟩)
    obtain ⟨b, hy, hb⟩ := stumble_quiet h.quiet.2 line (fun reason hr => hf ⟨reason, hr⟩)
    rw [ha, hb]
    refine ⟨?_, rfl⟩
    exact { h with
      fault := rfl, status := rfl, token := rfl, worker := rfl
      ledger := h.ledger_push hx hy (by rw [h.pending, h.current]) }

theorem Twin.applyAll (h : Twin before levels q r) (es : List Effect) :
    Twin before levels (q.applyAll es) (r.applyAll es) := by
  obtain ⟨m, a, hx, ha⟩ := applyAll_quiet h.quiet.1 es
  obtain ⟨n, b, hy, hb⟩ := applyAll_quiet h.quiet.2 es
  rw [ha, hb]
  exact { h with
    engine := h.engine.applyAll es
    ledger := (ledger_asides hx).trans (h.ledger.trans (ledger_asides hy).symm) }

theorem Twin.enact (h : Twin before levels q r) (line : Line) (sp : Spell) :
    Twin before levels (q.enact line sp).1 (r.enact line sp).1 ∧
      (q.enact line sp).2 = (r.enact line sp).2 := by
  have hi : Twin before levels
      ({ q with interpreter := { q.interpreter with branches := sp.branches } } : Queue)
      { r with interpreter := { r.interpreter with branches := sp.branches } } :=
    { h with interpreter := by simp only [h.interpreter] }
  have hp : Twin before levels (q.perform sp) (r.perform sp) := hi.applyAll sp.effects
  unfold Queue.enact
  cases sp.upshot with
  | pause seconds i job => exact ⟨{ hp with worker := rfl }, rfl⟩
  | result s => exact ⟨hp.complete s, rfl⟩
  | fault f => exact hp.stumble line f

theorem Twin.finish (h : Twin before levels q r) : Twin before levels q.finish r.finish := by
  rcases finish_quiet h.quiet.1 with ⟨f, a, hf, hx, ha⟩ | ⟨a, hf, hx, ha⟩
  · rcases finish_quiet h.quiet.2 with ⟨g, b, hg, hy, hb⟩ | ⟨b, hg, hy, hb⟩
    · rw [h.interpreter, hg] at hf
      cases hf
      rw [ha, hb]
      exact { h with
        fault := rfl, status := rfl, token := rfl, worker := rfl
        ledger := h.ledger_push hx hy (by rw [h.pending, h.current]) }
    · rw [h.interpreter, hg] at hf
      cases hf
  · rcases finish_quiet h.quiet.2 with ⟨g, b, hg, hy, hb⟩ | ⟨b, hg, hy, hb⟩
    · rw [h.interpreter, hg] at hf
      cases hf
    · rw [ha, hb]
      exact { h with
        status := rfl, worker := rfl
        ledger := h.ledger_push hx hy (by rw [h.pending, h.current]) }

theorem Twin.dispatch (h : Twin before levels q r) (line : Line) (pending : List Line) :
    Twin before levels (q.dispatch line pending) (r.dispatch line pending) := by
  rw [dispatch_quiet h.quiet.1, dispatch_quiet h.quiet.2]
  exact { h with
    pending := rfl, token := rfl, current := rfl
    ledger := h.ledger_push (.refl _) (.refl _) (by rw [h.status]) }

theorem Twin.execute (h : Twin before levels q r) (hk : r.token = some .fresh) (line : Line) :
    Twin before levels (q.execute line).1 (r.execute line).1 ∧
      (q.execute line).2 = (r.execute line).2 := by
  rw [execute_eq h.quiet.1 (h.token.trans hk), execute_eq h.quiet.2 hk]
  obtain ⟨a, hx, ha⟩ := heed_quiet (q := q) (Spell.opening q.interpreter q.engine line)
  obtain ⟨b, hy, hb⟩ := heed_quiet (q := r) (Spell.opening r.interpreter r.engine line)
  rw [ha, hb]
  have hq : Twin before levels ({ q with trace := a } : Queue) { r with trace := b } :=
    ⟨h.quiet, h.interpreter, h.engine, h.pending, h.current, h.status, h.fault, h.token, h.worker,
      h.completed, (ledger_asides hx).trans (h.ledger.trans (ledger_asides hy).symm)⟩
  have hsp : Spell.first q.interpreter q.engine line = Spell.first r.interpreter r.engine line := by
    rw [h.interpreter, Spell.first_twin h.engine]
  rw [hsp]
  exact hq.enact line _

theorem Twin.takeLine (h : Twin before levels q r) :
    Twin before levels q.takeLine.1 r.takeLine.1 ∧ q.takeLine.2 = r.takeLine.2 := by
  by_cases hs : r.status = .running
  · cases hp : r.pending with
    | nil =>
      rw [takeLine_nil (h.status.trans hs) (h.pending.trans hp), takeLine_nil hs hp]
      exact ⟨h.finish, rfl⟩
    | cons line pending =>
      rw [takeLine_cons (h.status.trans hs) (h.pending.trans hp), takeLine_cons hs hp]
      exact (h.dispatch line pending).execute (by rw [dispatch_quiet h.quiet.2]) line
  · have hq : q.status ≠ .running := by rw [h.status]; exact hs
    rw [takeLine_stopped hq, takeLine_stopped hs]
    exact ⟨{ h with worker := rfl }, rfl⟩

theorem Twin.takeLines (h : Twin before levels q r) (bound : Nat) :
    Twin before levels (q.takeLines bound) (r.takeLines bound) := by
  induction bound generalizing q r with
  | zero => exact { h with worker := rfl }
  | succ bound ih =>
    obtain ⟨ht, hg⟩ := h.takeLine
    unfold Queue.takeLines
    cases hq : q.takeLine with
    | mk q' goes =>
      cases hr : r.takeLine with
      | mk r' goes' =>
        rw [hq, hr] at ht hg
        cases hg
        cases goes with
        | true => exact ih ht
        | false => exact ht

theorem Twin.takeAll (h : Twin before levels q r) : Twin before levels q.takeAll r.takeAll := by
  unfold Queue.takeAll
  rw [backlog_quiet h.quiet.1, backlog_quiet h.quiet.2, h.pending]
  exact h.takeLines _

theorem Twin.wakeUp (h : Twin before levels q r) (line : Line) (i : Instruction) (job : Job) :
    Twin before levels (q.wakeUp line i job).1 (r.wakeUp line i job).1 ∧
      (q.wakeUp line i job).2 = (r.wakeUp line i job).2 := by
  have hc : q.tokenCheck = r.tokenCheck := by simp only [tokenCheck, h.token]
  cases hk : r.tokenCheck with
  | ok u =>
    rw [wakeUp_eq h.quiet.1 (hc.trans hk), wakeUp_eq h.quiet.2 hk, h.interpreter,
      Spell.next_twin h.engine]
    exact h.enact line _
  | error f =>
    obtain ⟨token, ht, hcan⟩ := tokenCheck_error hk
    rw [wakeUp_cancelled (h.token.trans ht) hcan, wakeUp_cancelled ht hcan, h.engine.committed]
    exact ⟨(h.applyAll _).abandon line, rfl⟩

/-- Twins stay twins when their workers take a turn. -/
theorem Twin.work (h : Twin before levels q r) : Twin before levels q.work r.work := by
  have hw := h.worker
  have hb : Twin before levels ({ q with worker := .busy } : Queue) { r with worker := .busy } :=
    { h with worker := rfl }
  cases hq : q.worker with
  | absent =>
    cases hr : r.worker <;> rw [hq, hr] at hw <;> cases hw
    rw [work_idle (.inl hq), work_idle (.inl hr)]
    exact h
  | busy =>
    cases hr : r.worker <;> rw [hq, hr] at hw <;> cases hw
    rw [work_idle (.inr hq), work_idle (.inr hr)]
    exact h
  | fresh =>
    cases hr : r.worker <;> rw [hq, hr] at hw <;> cases hw
    rw [work_fresh hq, work_fresh hr]
    exact hb.takeAll
  | asleep line i job wake =>
    cases hr : r.worker <;> rw [hq, hr] at hw <;> cases hw
    obtain ⟨ht, hg⟩ := hb.wakeUp line i job
    rw [work_asleep hq, work_asleep hr, hg]
    split
    · exact ht.takeAll
    · exact ht

/-- A queue on which a run was just called, beside a fresh one: a line of before may still have to
learn that it was cancelled. -/
structure Eve (before : Array StepResult) (levels : Nat) (q r : Queue) : Prop where
  twin : Twin before levels ({ q with worker := .fresh, token := none } : Queue) r
  current : q.current = none
  untold : q.ledger.current = none
  running : q.status = .running
  worker : q.worker = .fresh ∧ q.token = none ∨
    ∃ line i job wake token, q.worker = .asleep line i job wake ∧ q.token = some token ∧
      token.isCancelled

theorem Eve.fresh (h : Eve before levels q r) : r.worker = .fresh := by
  have hw := h.twin.worker
  cases hr : r.worker <;> rw [hr] at hw <;> cases hw

/-- The first turn: a cancelled line is dropped, and the run begins as on a fresh queue. -/
theorem Eve.work (h : Eve before levels q r) : Twin before levels q.work r.work := by
  rcases h.worker with ⟨hw, ht⟩ | ⟨line, i, job, wake, token, hw, ht, hc⟩
  · have hq : ({ q with worker := .fresh, token := none } : Queue) = q := by
      rw [← hw, ← ht]
    have htwin := h.twin
    rw [hq] at htwin
    exact htwin.work
  · obtain ⟨shown, n, x, hx, he⟩ := wakeUp_dropped (q := { q with worker := .busy })
      h.twin.quiet.1 ht hc line i job
    have hl : Ledger.ofEvents (x.push (.state ⟨q.pending, none, q.status⟩)).toList = q.ledger := by
      have hn : q.ledger.note (.state ⟨q.pending, none, q.status⟩) = q.ledger := by
        simp only [Ledger.note, h.untold]
      exact (Queue.ledger_push hx _).trans hn
    have hb : Twin before levels ({ q with worker := .busy, token := none } : Queue)
        { r with worker := .busy } := { h.twin with worker := rfl }
    have he' := h.twin.engine
    rw [work_asleep hw, he, work_fresh h.fresh]
    exact Twin.takeAll { hb with
      engine := ⟨he'.world, he'.settings, he'.committed, he'.completed⟩
      current := h.current.symm.trans h.twin.current
      ledger := hl.trans h.twin.ledger }

theorem Twin.clock (h : Twin before levels q r) (t u : Binary64) :
    Twin before levels ({ q with now := t } : Queue) { r with now := u } :=
  ⟨h.quiet, h.interpreter, h.engine, h.pending, h.current, h.status, h.fault, h.token, h.worker,
    h.completed, h.ledger⟩

theorem Eve.clock (h : Eve before levels q r) (t u : Binary64) :
    Eve before levels ({ q with now := t } : Queue) { r with now := u } :=
  ⟨h.twin.clock t u, h.current, h.untold, h.running, h.worker⟩

def Follows (before : Array StepResult) (levels : Nat) (q r : Queue) : Prop :=
  Eve before levels q r ∨ Twin before levels q r

theorem Follows.work (h : Follows before levels q r) : Follows before levels q.work r.work :=
  .inr (h.elim Eve.work Twin.work)

theorem Follows.clock (h : Follows before levels q r) (t u : Binary64) :
    Follows before levels ({ q with now := t } : Queue) { r with now := u } :=
  h.imp (Eve.clock · t u) (Twin.clock · t u)

theorem Follows.status (h : Follows before levels q r) : q.status = r.status :=
  h.elim (fun h => h.twin.status) Twin.status

theorem Follows.settles {x y : Queue} (h : Follows before levels q r) (hq : Settles q x)
    (hr : Settles r y) : Follows before levels x y := by
  induction hq generalizing r with
  | done hs =>
    cases hr with
    | done _ => exact h
    | work u hu _ => exact absurd (h.status.trans hu) hs
  | work t ht _ ih =>
    cases hr with
    | done hs => exact absurd (h.status.symm.trans ht) hs
    | work u _ hr => exact ih (h.clock t u).work hr

end Twin

end Queue

/-- The turns without control calls. -/
def Turn.IsCalm : Turn → Prop
  | .clock _ => True
  | .work => True
  | _ => False

theorem Turn.IsCalm.cases {t : Turn} (h : t.IsCalm) : t = .work ∨ ∃ time, t = .clock time := by
  unfold IsCalm at h
  split at h
  · exact .inr ⟨_, rfl⟩
  · exact .inl rfl
  · exact h.elim

def Turn.isWork : Turn → Bool
  | .work => true
  | _ => false

namespace Queue

section Twin

variable {before : Array StepResult} {levels : Nat} {q r : Queue}

/-- Runs that follow the same course do so for as many turns of their workers, at any times. -/
theorem Follows.after {ts us : List Turn} (h : Follows before levels q r)
    (ht : ∀ t ∈ ts, t.IsCalm) (hu : ∀ t ∈ us, t.IsCalm)
    (hn : ts.countP Turn.isWork = us.countP Turn.isWork) :
    Follows before levels (q.after ts) (r.after us) := by
  induction ts generalizing us q r with
  | nil =>
    induction us generalizing r with
    | nil => exact h
    | cons u us ih =>
      rcases (hu u (by simp)).cases with rfl | ⟨time, rfl⟩
      · simp [List.countP_cons, Turn.isWork] at hn
      · exact ih (h.clock q.now time) (fun t ht => hu t (by simp [ht])) hn
  | cons t ts ih =>
    rcases (ht t (by simp)).cases with rfl | ⟨time, rfl⟩
    · induction us generalizing r with
      | nil => simp [List.countP_cons, Turn.isWork] at hn
      | cons u us ihu =>
        rcases (hu u (by simp)).cases with rfl | ⟨time, rfl⟩
        · change Follows before levels (q.work.after ts) (r.work.after us)
          exact ih h.work (fun t h => ht t (by simp [h])) (fun t h => hu t (by simp [h]))
            (by simpa [List.countP_cons, Turn.isWork] using hn)
        · exact ihu (h.clock q.now time) (fun t ht => hu t (by simp [ht])) hn
    · exact ih (h.clock time r.now) (fun t h => ht t (by simp [h])) hu hn

theorem eve_run {w : World} {k : Realm w} {e : Engine} (hq : Sane k q) (ho : q.orders = [])
    (he : q.engine.Twin q.engine.completed e) (lines : List Line) :
    Eve q.completed q.engine.completed (q.clearTrace.call (.run lines))
      ((make (.make q.interpreter.settings q.interpreter.conditions) e).call (.run lines)) := by
  obtain ⟨a, ha, hp⟩ := run_quiet (q := q.clearTrace) ho lines
  obtain ⟨b, hb, hf⟩ := run_quiet (q := make q.interpreter.reset e) rfl lines
  have hempty {x : Array Event} (hx : Asides #[] x) :
      Ledger.ofEvents (x.push (.state ⟨lines, none, .running⟩)).toList = .empty := by
    rw [ledger_push hx]
    rfl
  have htwin : Twin q.completed q.engine.completed
      ({ q.clearTrace.begun lines a with worker := .fresh, token := none } : Queue)
      { (make q.interpreter.reset e).begun lines b with worker := .fresh } := by
    refine ⟨⟨ho, rfl⟩, rfl, he, rfl, rfl, rfl, rfl, rfl, rfl, ?_, ?_⟩
    · simp [begun, cancelInFlight, clearTrace, make]
    · exact (hempty ha).trans (hempty hb).symm
  have hl : (q.clearTrace.begun lines a).ledger.current = none := by
    change (Ledger.ofEvents (a.push (.state ⟨lines, none, .running⟩)).toList).current = none
    rw [hempty ha]
    rfl
  have hr := hq.rests
  unfold Rests at hr
  rw [Interpreter.make_reset hq.inside.table, hp, hf,
    kick_absent (q := (make q.interpreter.reset e).begun lines b) rfl rfl]
  cases hw : q.worker with
  | absent =>
    rw [hw] at hr
    rw [kick_absent (q := q.clearTrace.begun lines a) rfl hw]
    refine ⟨htwin, rfl, hl, rfl, .inl ⟨rfl, ?_⟩⟩
    simp [begun, cancelInFlight, clearTrace, hr]
  | fresh =>
    rw [hw] at hr
    have hpresent : (q.clearTrace.begun lines a).worker ≠ .absent := by
      simp [begun, cancelInFlight, clearTrace, hw]
    rw [kick_present hpresent]
    refine ⟨htwin, rfl, hl, rfl, .inl ⟨hw, ?_⟩⟩
    simp [begun, cancelInFlight, clearTrace, hr]
  | busy => rw [hw] at hr; exact hr.elim
  | asleep line i job wake =>
    rw [hw] at hr
    obtain ⟨token, ht⟩ := Option.isSome_iff_exists.mp hr.1
    have hpresent : (q.clearTrace.begun lines a).worker ≠ .absent := by
      simp [begun, cancelInFlight, clearTrace, hw]
    rw [kick_present hpresent]
    refine ⟨htwin, rfl, hl, rfl, .inr ⟨line, i, job, wake, _, hw, ?_, token.isCancelled_cancel
      (.text runReason)⟩⟩
    simp [begun, cancelInFlight, clearTrace, ht]

end Twin

/-- What two queues have in common when the first one has some results and levels from before. -/
structure Agrees (before : Array StepResult) (levels : Nat) (q r : Queue) : Prop where
  status : q.status = r.status
  fault : q.fault = r.fault
  current : q.current = r.current
  pending : q.pending = r.pending
  branches : q.interpreter = r.interpreter
  completed : q.completed = before ++ r.completed
  committed : q.engine.committed = r.engine.committed
  levels : q.engine.completed = levels + r.engine.completed
  /-- The lines taken since the call, and what became of them. -/
  ledger : q.ledger = r.ledger

theorem Follows.agrees {before : Array StepResult} {levels : Nat} {q r : Queue}
    (h : Follows before levels q r) : Agrees before levels q r := by
  have ht {x : Queue} (h : Twin before levels x r) : Agrees before levels x r :=
    ⟨h.status, h.fault, h.current, h.pending, h.interpreter, h.completed, h.engine.committed,
      h.engine.completed, h.ledger⟩
  rcases h with h | h
  · have ha := ht h.twin
    exact ⟨ha.status, ha.fault, ha.current, ha.pending, ha.branches, ha.completed, ha.committed,
      ha.levels, ha.ledger⟩
  · exact ht h

/-- A run depends on nothing that was there before it: whatever state a queue was in, from the call
on it goes through the same states as a fresh queue with a fresh interpreter and an agent that
starts where this one was committed, turn by turn, whenever their workers wake; and both settle. -/
theorem run_preempts {q : Queue} (hq : Reachable q) (ho : q.orders = []) (lines : List Line)
    {pose : PoseEntry} (hp : pose.stance = .ok q.engine.committed) :
    ∃ e, Engine.make q.engine.world (some pose) q.engine.settings = .ok e ∧
      let p := q.clearTrace.call (.run lines)
      let f := (make (.make q.interpreter.settings q.interpreter.conditions) e).call (.run lines)
      (∀ ts us, (∀ t ∈ ts, t.IsCalm) → (∀ u ∈ us, u.IsCalm) →
        ts.countP Turn.isWork = us.countP Turn.isWork →
        Agrees q.completed q.engine.completed (p.after ts) (f.after us)) ∧
      p.settle.1 = true ∧ f.settle.1 = true ∧
      Agrees q.completed q.engine.completed p.settle.2 f.settle.2 := by
  have hs := hq.sane
  let e : Engine := {
    world := q.engine.world, settings := q.engine.settings, committed := q.engine.committed
    shown := .still q.engine.committed, observers := [], completed := 0 }
  refine ⟨e, make_of_stance hp hs.inside.fits.cell _, ?_⟩
  intro p f
  have htwin : q.engine.Twin q.engine.completed e := ⟨rfl, rfl, rfl, rfl⟩
  have he : Eve q.completed q.engine.completed p f := eve_run hs ho htwin lines
  have hpa : p.worker.isAlive := by
    rcases he.worker with ⟨hw, _⟩ | ⟨_, _, _, _, _, hw, _⟩
    · rw [hw]; rfl
    · rw [hw]; rfl
  have hfa : f.worker.isAlive := by rw [he.fresh]; rfl
  have hpo : p.orders = [] := he.twin.quiet.1
  obtain ⟨hps, hpset⟩ := settle_settles hpo (settled_run (by exact ho) lines) (fun _ => hpa)
  obtain ⟨hfs, hfset⟩ := settle_settles he.twin.quiet.2 (settled_run rfl lines) (fun _ => hfa)
  refine ⟨?_, hps, hfs, (Follows.settles (.inl he) hpset hfset).agrees⟩
  intro ts us ht hu hn
  exact (Follows.after (.inl he) ht hu hn).agrees

/-- A run that takes over while a turn is in execution. -/
theorem run_preempts_corridor :
    let q := (make (.make .standard []) .corridor).after [.call (.run [.text "TURN_LEFT"]), .work]
    ∃ e, Engine.make q.engine.world (some (.ofStance q.engine.committed)) q.engine.settings =
        .ok e ∧
      let p := q.clearTrace.call (.run [.text "PICKUP"])
      let f := (make (.make q.interpreter.settings q.interpreter.conditions) e).call
        (.run [.text "PICKUP"])
      Agrees q.completed q.engine.completed p.settle.2 f.settle.2 := by
  have hs := sane_after (reachable_corridor .standard).sane
    (show ∀ t ∈ [.call (.run [.text "TURN_LEFT"]), .work], ∀ pose, t ≠ Turn.reset pose by simp)
  have hr := (reachable_corridor .standard).after [.call (.run [.text "TURN_LEFT"]), .work]
  have ho : ((make (.make .standard []) .corridor).after
      [.call (.run [.text "TURN_LEFT"]), .work]).orders = [] := by
    simp only [after_cons, after_nil, turn]
    exact (work_within rfl (settled_run rfl _) rfl).orders
  generalize (make (.make .standard []) .corridor).after
    [.call (.run [.text "TURN_LEFT"]), .work] = q at hs hr ho ⊢
  have hc := hr.sane.inside.fits.cell
  have hw : q.engine.world = Engine.corridor.world := hs.inside.world
  obtain ⟨e, he, _, _, _, ha⟩ := run_preempts hr ho [.text "PICKUP"]
    (PoseEntry.stance_of_canEnter (by rw [hw]; decide) (by rw [hw]; decide) hc)
  exact ⟨e, he, ha⟩

end Queue

end Courier
