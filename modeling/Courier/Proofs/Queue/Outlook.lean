import Courier.Proofs.Queue.Settlement
import Courier.Proofs.Queue.Showing

namespace Courier

/-- A whole line: the branches that it leaves open, its effects, and its result or fault. -/
structure Course where
  branches : List Bool
  effects : List Effect
  result : Except Fault StepResult

namespace Course

def ofStretch (branches : List Bool) (e : Engine) (i : Instruction) (s : Stretch) : Course :=
  let r := Action.conclude e.settings e.world e.committed s
  ⟨branches, r.2, r.1.map (.ofAnswer i)⟩

def ofJob (branches : List Bool) (e : Engine) (i : Instruction) : Job → Course
  | .act a => ofStretch branches e i (e.resume a)
  | .wait => ⟨branches, [], .ok (.plain i)⟩

/-- From the opening of a line on, `branches` being open before. -/
def ofOpening (branches : List Bool) (e : Engine) :
    Except Fault (Instruction × Demand × List Bool) → Course
  | .error f => ⟨branches, [], .error f⟩
  | .ok (_, .finished r, branches) => ⟨branches, [], .ok r⟩
  | .ok (i, .act a, branches) => ofStretch branches e i (e.begin a)
  | .ok (i, .wait seconds, branches) =>
    ⟨branches, [], (seconds.checkPause.mapError .number).map (fun _ => .plain i)⟩

def ofLine (t : Interpreter) (e : Engine) (line : Line) : Course :=
  ofOpening t.branches e (Spell.opening t e line).result

/-- A line that acts takes the whole action. -/
theorem ofLine_act {t : Interpreter} {e : Engine} {line : Line} {i : Instruction} {a : Action}
    (hs : t.isSkipping = false) (hp : Instruction.parse line.plain = .ok i)
    (ha : i.command.action? = some a) :
    ofLine t e line =
      ⟨t.branches, (a.whole e.settings e.world e.committed).2,
        (a.whole e.settings e.world e.committed).1.map (.ofAnswer i)⟩ := by
  unfold ofLine Spell.opening
  rw [Interpreter.openLine_fresh hp, Interpreter.openInstruction_act hs ha]
  rfl

def after (es : List Effect) (c : Course) : Course := { c with effects := es ++ c.effects }

/-- The effects of a course, and of what comes after it unless it fails. -/
def effectsWith (c : Course) (t : Interpreter) (e : Engine)
    (rest : Interpreter → Engine → List Effect) : List Effect :=
  match c.result with
  | .ok _ => c.effects ++ rest { t with branches := c.branches } (e.applyAll c.effects)
  | .error _ => c.effects

theorem effectsWith_after (t : Interpreter) (e : Engine) (b : List Bool) (es : List Effect)
    (c : Course) (rest : Interpreter → Engine → List Effect) :
    (after es c).effectsWith t e rest =
      es ++ c.effectsWith { t with branches := b } (e.applyAll es) rest := by
  unfold effectsWith after
  cases c.result with
  | ok r => simp [Engine.applyAll_append]
  | error f => rfl

/-- What a spell leads to, the pauses after it included. -/
def ofSpell (e : Engine) (sp : Spell) : Course :=
  match sp.upshot with
  | .pause _ i job => .after sp.effects (ofJob sp.branches (e.applyAll sp.effects) i job)
  | .result r => ⟨sp.branches, sp.effects, .ok r⟩
  | .fault f => ⟨sp.branches, sp.effects, .error f⟩

theorem ofSpell_ofStretch (branches : List Bool) (e : Engine) (i : Instruction) (s : Stretch) :
    ofSpell e (.ofStretch branches i s) = ofStretch branches e i s := by
  unfold ofSpell ofStretch Spell.ofStretch Spell.resting
  cases hn : s.next with
  | done a => rw [Action.conclude_done hn]; rfl
  | failed f => rw [Action.conclude_failed hn]; rfl
  | pause seconds a =>
    cases hp : seconds.checkPause with
    | error f => rw [Action.conclude_stuck hn hp]; simp only [hp]; rfl
    | ok u =>
      rw [Action.conclude_pause hn hp]
      simp only [hp, after, ofJob, ofStretch, Engine.resume, Engine.settings_applyAll,
        Engine.world_applyAll, Engine.committed_applyAll]

theorem ofSpell_first (t : Interpreter) (e : Engine) (line : Line) :
    ofSpell e (.first t e line) = ofLine t e line := by
  unfold Spell.first ofLine
  generalize (Spell.opening t e line).result = r
  cases r with
  | error f => rfl
  | ok r =>
    obtain ⟨i, d, branches⟩ := r
    cases d with
    | finished s => rfl
    | act a => exact ofSpell_ofStretch branches e i (e.begin a)
    | wait seconds =>
      simp only [Spell.ofOpening, ofOpening, ofSpell, Spell.resting]
      cases hp : seconds.checkPause with
      | error f => rfl
      | ok u => simp only [ofJob, after, List.nil_append]; rfl

theorem ofSpell_next (t : Interpreter) (e : Engine) (i : Instruction) (job : Job) :
    ofSpell e (.next t e i job) = ofJob t.branches e i job := by
  cases job with
  | act a => exact ofSpell_ofStretch t.branches e i (e.resume a)
  | wait => rfl

end Course

structure Outlook where
  interpreter : Interpreter
  engine : Engine
  results : List StepResult
  pending : List Line
  current : Option Line
  fault : Option Fault

namespace Outlook

def ofEnd (t : Interpreter) (e : Engine) (done : List StepResult) : Outlook where
  interpreter := t
  engine := e
  results := done
  pending := []
  current := none
  fault := match t.checkBalanced with
    | .ok () => none
    | .error f => some f

/-- A course followed by more lines, or by none if it fails. -/
def ofCourse (t : Interpreter) (e : Engine) (done : List StepResult) (line : Line)
    (lines : List Line) (c : Course)
    (rest : Interpreter → Engine → List StepResult → Outlook) : Outlook :=
  match c.result with
  | .ok r => rest { t with branches := c.branches } (e.applyAll c.effects) (done ++ [r])
  | .error f =>
    ⟨{ t with branches := c.branches }, e.applyAll c.effects, done, lines, some line, some f⟩

theorem ofCourse_after (t : Interpreter) (e : Engine) (done : List StepResult) (line : Line)
    (lines : List Line) (b : List Bool) (es : List Effect) (c : Course)
    (rest : Interpreter → Engine → List StepResult → Outlook) :
    ofCourse t e done line lines (.after es c) rest =
      ofCourse { t with branches := b } (e.applyAll es) done line lines c rest := by
  unfold ofCourse Course.after
  simp only [Engine.applyAll_append]

def ofLines (t : Interpreter) (e : Engine) (done : List StepResult) : List Line → Outlook
  | [] => ofEnd t e done
  | line :: lines =>
    ofCourse t e done line lines (.ofLine t e line) (fun t e done => ofLines t e done lines)

/-- All that some lines do, up to the first one that fails. -/
def effects (t : Interpreter) (e : Engine) : List Line → List Effect
  | [] => []
  | line :: lines => (Course.ofLine t e line).effectsWith t e (fun t e => effects t e lines)

end Outlook

namespace Queue

def final (q : Queue) : Outlook where
  interpreter := q.interpreter
  engine := q.engine
  results := q.completed.toList
  pending := q.pending
  current := q.current
  fault := q.fault

/-- What a queue comes to when nothing disturbs it. -/
def outlook (q : Queue) : Outlook :=
  match q.status, q.worker with
  | .running, .asleep line i job _ =>
    .ofCourse q.interpreter q.engine q.completed.toList line q.pending
      (.ofJob q.interpreter.branches q.engine i job)
      (fun t e done => .ofLines t e done q.pending)
  | .running, _ => .ofLines q.interpreter q.engine q.completed.toList q.pending
  | _, _ => q.final

/-- What a queue still does when nothing disturbs it. -/
def coming (q : Queue) : List Effect :=
  match q.status, q.worker with
  | .running, .asleep _ i job _ =>
    (Course.ofJob q.interpreter.branches q.engine i job).effectsWith q.interpreter q.engine
      (fun t e => Outlook.effects t e q.pending)
  | .running, _ => Outlook.effects q.interpreter q.engine q.pending
  | _, _ => []

/-- The frames shown so far and those still to come. -/
def film (q : Queue) : List Frame := q.shots ++ Effect.frames q.coming

/-- A queue that nobody disturbs: a line in execution is not cancelled. -/
structure Undisturbed (q : Queue) : Prop where
  orders : q.orders = []
  honest : q.interpreter.IsHonest
  status : q.status = .running ∧ q.fault = none ∨ q.status = .idle ∧ q.fault = none ∨
    q.status = .error ∧ q.fault.isSome
  worker : q.status = .running →
    q.worker = .fresh ∧ q.current = none ∨
    ∃ line i job wake, q.worker = .asleep line i job wake ∧ q.current = some line ∧
      q.token = some .fresh ∧ Instruction.parse line.plain = .ok i

/-- A queue that nobody disturbs, with an outlook and a film. -/
structure Heads (o : Outlook) (fs : List Frame) (q : Queue) : Prop where
  undisturbed : Undisturbed q
  outlook : q.outlook = o
  film : q.film = fs

/-- Between two lines of a run with an outlook and a film. -/
structure Foresees (o : Outlook) (fs : List Frame) (q : Queue) : Prop where
  orders : q.orders = []
  honest : q.interpreter.IsHonest
  running : q.status = .running
  fault : q.fault = none
  current : q.current = none
  outlook : .ofLines q.interpreter q.engine q.completed.toList q.pending = o
  film : q.shots ++ Effect.frames (Outlook.effects q.interpreter q.engine q.pending) = fs

section Outlook

variable {q r : Queue} {o : Outlook} {fs : List Frame}

theorem outlook_ended (hs : q.status ≠ .running) : q.outlook = q.final := by
  cases hq : q.status with
  | running => exact absurd hq hs
  | idle => simp only [outlook, hq]
  | paused => simp only [outlook, hq]
  | error => simp only [outlook, hq]

theorem film_ended (hs : q.status ≠ .running) : q.film = q.shots := by
  have hc : q.coming = [] := by
    cases hq : q.status with
    | running => exact absurd hq hs
    | idle => simp only [coming, hq]
    | paused => simp only [coming, hq]
    | error => simp only [coming, hq]
  rw [film, hc]
  exact List.append_nil _

theorem enact_outlook (ho : q.orders = []) (hh : q.interpreter.IsHonest)
    (hs : q.status = .running) (hf : q.fault = none) {line : Line} (hc : q.current = some line)
    (hk : q.token = some .fresh) {sp : Spell}
    (hm : sp.Minds (Instruction.parse line.plain))
    (hout : Outlook.ofCourse q.interpreter q.engine q.completed.toList line q.pending
      (.ofSpell q.engine sp) (fun t e done => .ofLines t e done q.pending) = o)
    (hfilm : q.shots ++ Effect.frames ((Course.ofSpell q.engine sp).effectsWith q.interpreter
      q.engine (fun t e => Outlook.effects t e q.pending)) = fs) :
    ((q.enact line sp).2 = true → Foresees o fs (q.enact line sp).1) ∧
      ((q.enact line sp).2 = false → Heads o fs (q.enact line sp).1) := by
  obtain ⟨n, a, _, he⟩ := perform_quiet ho sp
  have hmu := hm.upshot
  have hp : (q.perform sp).orders = [] := by rw [he]; exact ho
  have hshots := shots_perform ho sp
  unfold enact
  unfold Course.ofSpell at hout hfilm
  cases hu : sp.upshot with
  | pause seconds i job =>
    rw [hu] at hout hfilm hmu
    refine ⟨by simp, fun _ => ⟨⟨hp, ?_, ?_, ?_⟩, ?_, ?_⟩⟩
    · rw [he]; exact hh
    · rw [he]; exact .inl ⟨hs, hf⟩
    · intro _
      rw [he]
      exact .inr ⟨line, i, job, _, rfl, hc, hk, hmu⟩
    · rw [Outlook.ofCourse_after (b := sp.branches)] at hout
      rw [he]
      simp only [outlook, hs]
      exact hout
    · -- what the spell shows moves from the frames to come to those shown
      rw [Course.effectsWith_after (b := sp.branches), Effect.frames_append, ← List.append_assoc,
        ← hshots, he] at hfilm
      rw [he]
      simp only [film, coming, hs]
      exact hfilm
  | result s =>
    rw [hu] at hout hfilm
    refine ⟨fun _ => ?_, by simp⟩
    dsimp only
    have hcomplete := shots_complete hp s
    rw [hshots] at hcomplete
    rw [complete_quiet hp, he] at hcomplete ⊢
    refine ⟨ho, hh, hs, hf, rfl, ?_, ?_⟩
    · simpa [Outlook.ofCourse] using hout
    · rw [hcomplete]
      simpa [Course.effectsWith] using hfilm
  | fault f =>
    rw [hu] at hout hfilm hmu
    obtain ⟨b, _, hb⟩ := stumble_quiet hp line hmu
    have hstumble := shots_stumble hp line hmu
    rw [hshots] at hstumble
    dsimp only
    rw [hb, he] at hstumble ⊢
    refine ⟨by simp, fun _ => ⟨⟨ho, hh, .inr (.inr ⟨rfl, rfl⟩), by simp⟩, ?_, ?_⟩⟩
    · simpa [Outlook.ofCourse, outlook, final, hc] using hout
    · rw [film_ended (by simp), hstumble]
      exact hfilm

theorem finish_outlook (h : Foresees o fs q) (hp : q.pending = []) : Heads o fs q.finish := by
  have hout := h.outlook
  have hfilm := h.film
  rw [hp] at hout hfilm
  rw [Outlook.effects, Effect.frames_nil, List.append_nil, ← shots_finish h.orders] at hfilm
  unfold Outlook.ofLines Outlook.ofEnd at hout
  rcases finish_quiet h.orders with ⟨f, x, hb, _, he⟩ | ⟨x, hb, _, he⟩
  · rw [hb] at hout
    rw [he] at hfilm ⊢
    refine ⟨⟨h.orders, h.honest, .inr (.inr ⟨rfl, rfl⟩), by simp⟩, ?_, ?_⟩
    · simpa [outlook, final, hp, h.current] using hout
    · rwa [film_ended (by simp)]
  · rw [hb] at hout
    rw [he] at hfilm ⊢
    refine ⟨⟨h.orders, h.honest, .inr (.inl ⟨rfl, h.fault⟩), by simp⟩, ?_, ?_⟩
    · simpa [outlook, final, hp, h.current, h.fault] using hout
    · rwa [film_ended (by simp)]

theorem takeAll_outlook (h : Foresees o fs q) : Heads o fs q.takeAll := by
  unfold takeAll
  refine takeLines_induction (I := Foresees o fs) (P := Heads o fs)
    (fun q hq => hq.orders) (fun q hq hs => absurd hq.running hs)
    (fun q hq _ hp => finish_outlook hq hp) ?_ h
    (by rw [backlog_quiet h.orders]; exact Nat.lt_succ_self _)
  intro q line pending hq hs hp r
  have hd := dispatch_quiet hq.orders line pending
  have ho : (q.dispatch line pending).orders = [] := by rw [hd]; exact hq.orders
  have hk : (q.dispatch line pending).token = some .fresh := by rw [hd]
  let opening : Opening :=
    Spell.opening (q.dispatch line pending).interpreter (q.dispatch line pending).engine line
  obtain ⟨a, _, hh⟩ := heed_quiet (q := q.dispatch line pending) opening
  have hshots : ((q.dispatch line pending).heed opening).shots = q.shots :=
    (shots_heed _ opening).trans (shots_dispatch hq.orders line pending)
  have hout := hq.outlook
  have hfilm := hq.film
  rw [hp] at hout hfilm
  unfold Outlook.ofLines at hout
  unfold Outlook.effects at hfilm
  rw [← Course.ofSpell_first] at hout hfilm
  rw [execute_eq ho hk, hh, hd]
  rw [hh, hd] at hshots
  rw [← hshots] at hfilm
  have hm := Spell.first_minds hq.honest q.engine line
  have hx := enact_outlook (q := { q with
    pending, token := some .fresh, current := some line, trace := a }) hq.orders hq.honest hs
    hq.fault rfl rfl hm hout hfilm
  constructor
  · intro hr
    have hg := hx.1 (by rw [hr])
    rwa [hr] at hg
  · intro hr
    have hg := hx.2 (by rw [hr])
    rwa [hr] at hg

/-- A turn of the worker changes nothing about how the run ends and what it shows. -/
theorem work_outlook (h : Heads o fs q) (hs : q.status = .running) : Heads o fs q.work := by
  have hu := h.undisturbed
  have hout := h.outlook
  have hfilm := h.film
  have hf : q.fault = none := by
    rcases hu.status with ⟨_, hf⟩ | ⟨hi, _⟩ | ⟨he, _⟩
    · exact hf
    · rw [hs] at hi; cases hi
    · rw [hs] at he; cases he
  rcases hu.worker hs with ⟨hw, hc⟩ | ⟨line, i, job, wake, hw, hc, hk, hp⟩
  · simp only [outlook, hs, hw] at hout
    simp only [film, coming, hs, hw] at hfilm
    rw [work_fresh hw]
    exact takeAll_outlook ⟨hu.orders, hu.honest, hs, hf, hc, hout, hfilm⟩
  · simp only [outlook, hs, hw] at hout
    simp only [film, coming, hs, hw] at hfilm
    rw [← Course.ofSpell_next] at hout hfilm
    have hcheck : ({ q with worker := .busy } : Queue).tokenCheck = .ok () := by
      rw [tokenCheck_some (by exact hk)]
      rfl
    have hm := Spell.next_minds q.interpreter q.engine i job
    rw [← hp] at hm
    have hx := enact_outlook (q := { q with worker := .busy }) hu.orders hu.honest hs hf hc hk hm
      hout hfilm
    rw [work_asleep hw, wakeUp_eq (q := { q with worker := .busy }) hu.orders hcheck]
    split
    · next hg => exact takeAll_outlook (hx.1 hg)
    · next hg => exact hx.2 (by simpa using hg)

/-- A run that nobody disturbs ends as its outlook tells, and has shown its film then. -/
theorem settles_outlook (hset : Settles q r) (h : Heads o fs q) :
    Undisturbed r ∧ r.final = o ∧ r.shots = fs := by
  induction hset with
  | done hs =>
    exact ⟨h.undisturbed, (outlook_ended hs).symm.trans h.outlook,
      (film_ended hs).symm.trans h.film⟩
  | @work q r time hs _ ih =>
    have hu := h.undisturbed
    have hq : Heads o fs ({ q with now := time } : Queue) :=
      ⟨⟨hu.orders, hu.honest, hu.status, hu.worker⟩, h.outlook, h.film⟩
    exact ih (work_outlook hq hs)

/-- A run on a fresh queue settles, ends as the outlook of its lines tells and shows the frames of
all that they do. -/
theorem run_settles {t : Interpreter} (ht : t.IsHonest) (e : Engine) (lines : List Line) :
    let p := (make t e).call (.run lines)
    p.settle.1 = true ∧ Undisturbed p.settle.2 ∧ p.settle.2.status ≠ .running ∧
      p.settle.2.final = .ofLines t.reset e [] lines ∧
      p.settle.2.shots = Effect.frames (Outlook.effects t.reset e lines) := by
  intro p
  obtain ⟨a, _, ha⟩ := run_quiet (q := make t e) rfl lines
  have hp : p = { (make t e).begun lines a with worker := .fresh } :=
    ha.trans (kick_absent rfl rfl)
  have hshots : p.shots = [] := shots_run (q := make t e) rfl lines
  have hu : Undisturbed p := by
    rw [hp]
    exact ⟨rfl, ht, .inl ⟨rfl, rfl⟩, fun _ => .inl ⟨rfl, rfl⟩⟩
  have hout : p.outlook = .ofLines t.reset e [] lines := by
    rw [hp]
    rfl
  have hcoming : p.coming = Outlook.effects t.reset e lines := by
    rw [hp]
    rfl
  have hfilm : p.film = Effect.frames (Outlook.effects t.reset e lines) := by
    rw [film, hshots, hcoming]
    rfl
  have hw : p.status = .running → p.worker.isAlive := by
    rw [hp]
    exact fun _ => rfl
  obtain ⟨hs, hset⟩ := settle_settles hu.orders (settled_run rfl lines) hw
  obtain ⟨hr, hfin, hseen⟩ := settles_outlook hset ⟨hu, hout, hfilm⟩
  exact ⟨hs, hr, hset.status_ne, hfin, hseen⟩

end Outlook

end Queue

end Courier
