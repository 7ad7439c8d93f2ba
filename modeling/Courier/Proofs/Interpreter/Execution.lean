import Courier.Proofs.Engine.Uncancelled
import Courier.Proofs.Queue.Outlook

namespace Courier

inductive Errand
  | act (a : Action)
  | wait (seconds : Number)

/-- An engine on a clock, and what was asked of it so far. -/
structure Stage where
  performance : Performance
  errands : List Errand

namespace Stage

def start (e : Engine) : Stage := ⟨.start e, []⟩

def engine (x : Stage) : Engine := x.performance.engine

def act (x : Stage) (a : Action) : Except Fault Answer × Stage :=
  let r := x.performance.perform a
  (r.1, ⟨r.2, x.errands ++ [.act a]⟩)

def wait (x : Stage) (seconds : Number) : Except Fault Unit × Stage :=
  let r := x.performance.watch.sleep seconds
  (r.1, ⟨{ x.performance with watch := r.2 }, x.errands ++ [.wait seconds]⟩)

/-- Nothing cancels what is done, and every pause of an action ends. -/
structure IsReady (x : Stage) : Prop where
  clear : x.performance.IsClear
  timely : x.engine.settings.IsTimely

variable {x : Stage}

theorem start_isReady {e : Engine} (h : e.settings.IsTimely) : (start e).IsReady :=
  ⟨Performance.start_isClear e, h⟩

theorem act_ok (h : x.IsReady) (a : Action) :
    ∃ answer y, x.act a = (.ok answer, y) ∧ y.IsReady := by
  obtain ⟨q, hq, hc, hs⟩ := Performance.perform_ok h.clear h.timely.isPaced a
  have hy : Stage.IsReady ⟨q, x.errands ++ [.act a]⟩ := by
    have ht := h.timely
    rw [engine, ← hs] at ht
    exact ⟨hc, ht⟩
  have hx : x.act a = (.ok (a.feat x.engine.world x.engine.committed).answer,
      ⟨q, x.errands ++ [.act a]⟩) := by
    unfold act
    rw [hq]
    rfl
  exact ⟨_, _, hx, hy⟩

theorem wait_ok (h : x.IsReady) {seconds : Number} (hp : seconds.Passes) :
    ∃ y, x.wait seconds = (.ok (), y) ∧ y.IsReady := by
  obtain ⟨time, hs⟩ := Watch.sleep_ok h.clear.watch hp.timed
  have hw := h.clear.watch
  refine ⟨⟨{ x.performance with watch := { x.performance.watch with now := time } },
    x.errands ++ [.wait seconds]⟩, ?_, ⟨⟨⟨hw.token, hw.timers, hw.ripe⟩, h.clear.stopAt⟩, h.timely⟩⟩
  unfold wait
  rw [hs]

end Stage

namespace Interpreter

def meet (i : Instruction) (x : Stage) : Demand → Except Fault StepResult × Stage
  | .finished r => (.ok r, x)
  | .act a =>
    let r := x.act a
    (r.1.map (.ofAnswer i), r.2)
  | .wait seconds =>
    let r := x.wait seconds
    (r.1.map (fun _ => .plain i), r.2)

def carryOut (t : Interpreter) (x : Stage) :
    Except Fault (Instruction × Demand × List Bool) → Except Fault StepResult × Interpreter × Stage
  | .error f => (.error f, t, x)
  | .ok (i, d, branches) =>
    let r := meet i x d
    (r.1, { t with branches }, r.2)

/-- Executes a line: it is read and begun, and what it asks for is done. -/
def execute (t : Interpreter) (x : Stage) (line : String) :
    Except Fault StepResult × Interpreter × Stage :=
  carryOut t x (t.openLine x.performance.watch.token
    (.ofStance x.engine.world x.engine.committed) line).result

def onward (rest : Interpreter → Stage → Except Fault (List StepResult) × Interpreter × Stage) :
    Except Fault StepResult × Interpreter × Stage →
      Except Fault (List StepResult) × Interpreter × Stage
  | (.error f, t, x) => (.error f, t, x)
  | (.ok r, t, x) =>
    let s := rest t x
    (s.1.map (r :: ·), s.2)

/-- Executes lines one after another, up to the first one that fails. -/
def executeAll (t : Interpreter) (x : Stage) :
    List String → Except Fault (List StepResult) × Interpreter × Stage
  | [] => (.ok [], t, x)
  | line :: lines => onward (fun t x => executeAll t x lines) (t.execute x line)

variable {t u v : Interpreter} {x y z : Stage} {i : Instruction} {line : String}

theorem executeAll_single {r : StepResult} (h : t.execute x line = (.ok r, u, y)) :
    t.executeAll x [line] = (.ok [r], u, y) := by
  unfold executeAll
  rw [h]
  rfl

theorem executeAll_failed {f : Fault} (h : t.execute x line = (.error f, u, y))
    (lines : List String) : t.executeAll x (line :: lines) = (.error f, u, y) := by
  unfold executeAll
  rw [h]
  rfl

/-- Lines that go through: the first one does, and the rest after it. -/
theorem executeAll_cons {lines : List String} {rs : List StepResult}
    (h : t.executeAll x (line :: lines) = (.ok rs, u, y)) :
    ∃ r t' x' qs, t.execute x line = (.ok r, t', x') ∧
      t'.executeAll x' lines = (.ok qs, u, y) ∧ rs = r :: qs := by
  unfold executeAll at h
  generalize t.execute x line = p at h
  obtain ⟨r, t', x'⟩ := p
  cases r with
  | error f => cases h
  | ok r =>
    obtain ⟨hr, hrest⟩ := Prod.mk.inj h
    cases hq : (t'.executeAll x' lines).1 with
    | error f => rw [hq] at hr; cases hr
    | ok qs =>
      rw [hq] at hr
      cases hr
      exact ⟨r, t', x', qs, rfl, by rw [← hrest, ← hq], rfl⟩

/-- Lines after lines go on from where those end. -/
theorem executeAll_append {lines more : List String} {rs ss : List StepResult}
    (h : t.executeAll x lines = (.ok rs, u, y)) (g : u.executeAll y more = (.ok ss, v, z)) :
    t.executeAll x (lines ++ more) = (.ok (rs ++ ss), v, z) := by
  induction lines generalizing t x rs with
  | nil =>
    cases h
    exact g
  | cons line lines ih =>
    obtain ⟨r, t', x', qs, hx, hq, rfl⟩ := executeAll_cons h
    rw [List.cons_append]
    unfold executeAll
    rw [hx]
    dsimp only [onward]
    rw [ih hq]
    rfl

theorem execute_of_open (h : x.performance.IsClear) (hp : Instruction.parse line = .ok i)
    {o : Opening} (ho : t.openInstruction (.ofStance x.engine.world x.engine.committed) i = o) :
    t.execute x line = carryOut t x o.result := by
  unfold execute
  rw [h.watch.token, openLine_fresh hp, ho]

/-- Inside a false branch nothing is done. -/
theorem execute_skipped (h : x.performance.IsClear) (hs : t.isSkipping)
    (hp : Instruction.parse line = .ok i) (hc : i.command.opcode.isControl = false) :
    t.execute x line = (.ok (.skip i), t, x) := by
  rw [execute_of_open h hp (openInstruction_skipped hs hc)]
  rfl

theorem execute_act (h : x.performance.IsClear) (hs : t.isSkipping = false)
    (hp : Instruction.parse line = .ok i) {a : Action} (ha : i.command.action? = some a) :
    t.execute x line = ((x.act a).1.map (.ofAnswer i), t, (x.act a).2) := by
  rw [execute_of_open h hp (openInstruction_act hs ha)]
  rfl

theorem execute_wait (h : x.performance.IsClear) (hs : t.isSkipping = false)
    (hp : Instruction.parse line = .ok i) {units : Nat} (hc : i.command = .wait units)
    {seconds : Number} (hw : t.settings.seconds (.int units) = .ok seconds) :
    t.execute x line =
      ((x.wait seconds).1.map (fun _ => .plain i), t, (x.wait seconds).2) := by
  rw [execute_of_open h hp (openInstruction_wait hs hc hw)]
  rfl

/-- A branch inside a false one is false. -/
theorem execute_branch_skipped (h : x.performance.IsClear) (hs : t.isSkipping)
    (hp : Instruction.parse line = .ok i) {name : String} (hc : i.command = .branch name)
    {c : Condition} (hl : Json.lookup t.conditions name = some c) :
    ∃ r, t.execute x line = (.ok r, { t with branches := false :: t.branches }, x) := by
  rw [execute_of_open h hp (openInstruction_branch_skipped hs hc hl)]
  exact ⟨_, rfl⟩

theorem execute_branch (h : x.performance.IsClear) (hs : t.isSkipping = false)
    (hp : Instruction.parse line = .ok i) {name : String} (hc : i.command = .branch name)
    {c : Condition} (hl : Json.lookup t.conditions name = some c) {value : Bool}
    (hv : c.test (.ofStance x.engine.world x.engine.committed) = .ok value) :
    ∃ r, t.execute x line = (.ok r, { t with branches := value :: t.branches }, x) := by
  rw [execute_of_open h hp (openInstruction_branch hs hc hl hv)]
  exact ⟨_, rfl⟩

theorem execute_endBranch (h : x.performance.IsClear) (hp : Instruction.parse line = .ok i)
    (hc : i.command = .endBranch) {b : Bool} {branches : List Bool}
    (hb : t.branches = b :: branches) :
    t.execute x line = (.ok (.plain i), { t with branches }, x) := by
  rw [execute_of_open h hp (openInstruction_endBranch hc hb)]
  rfl

/-- A line executed on a clear clock takes its course. -/
structure Takes (t : Interpreter) (x : Stage) (r : Except Fault StepResult × Interpreter × Stage)
    (c : Course) : Prop where
  result : r.1 = c.result
  interpreter : r.2.1 = { t with branches := c.branches }
  engine : r.2.2.engine = x.engine.applyAll c.effects
  clear : r.2.2.performance.IsClear

theorem execute_takes (h : x.performance.IsClear) (t : Interpreter) (line : String) :
    Takes t x (t.execute x line) (.ofLine t x.engine (.text line)) := by
  unfold execute Course.ofLine Spell.opening
  rw [h.watch.token, Json.Value.plain_text]
  generalize (t.openLine .fresh (.ofStance x.engine.world x.engine.committed) line).result = r
  cases r with
  | error f => exact ⟨rfl, rfl, rfl, h⟩
  | ok r =>
    obtain ⟨i, d, branches⟩ := r
    cases d with
    | finished s => exact ⟨rfl, rfl, rfl, h⟩
    | act a =>
      have hc := Performance.perform_concludes h a
      have hr : (x.performance.perform a).1.map (StepResult.ofAnswer i) =
          (a.whole x.engine.settings x.engine.world x.engine.committed).1.map
            (StepResult.ofAnswer i) := by
        rw [hc.answer]
        rfl
      exact ⟨hr, rfl, hc.engine, hc.clear⟩
    | wait seconds =>
      dsimp only [carryOut, meet, Stage.wait, Course.ofOpening]
      cases hp : seconds.checkPause with
      | error f =>
        rw [Watch.sleep_untimed (by rw [h.watch.token]; rfl) hp]
        exact ⟨rfl, rfl, rfl, h⟩
      | ok u =>
        obtain ⟨time, hs⟩ := Watch.sleep_ok h.watch hp
        rw [hs]
        exact ⟨rfl, rfl, rfl, ⟨h.watch.token, h.watch.timers, h.watch.ripe⟩, h.stopAt⟩

/-- Lines that are executed without a fault are what the queue comes to. -/
theorem ofLines_executeAll (h : x.performance.IsClear) {lines : List String}
    {rs : List StepResult} (hx : t.executeAll x lines = (.ok rs, u, y)) (done : List StepResult) :
    Outlook.ofLines t x.engine done (lines.map .text) = .ofEnd u y.engine (done ++ rs) := by
  induction lines generalizing t x rs done with
  | nil =>
    cases hx
    rw [List.append_nil]
    rfl
  | cons line lines ih =>
    obtain ⟨r, t', x', qs, he, hq, rfl⟩ := executeAll_cons hx
    have ht := execute_takes h t line
    rw [he] at ht
    obtain ⟨hr, rfl, hengine, hclear⟩ := ht
    have hi := ih hclear hq (done ++ [r])
    rw [List.map_cons]
    unfold Outlook.ofLines Outlook.ofCourse
    rw [← hr]
    dsimp only at hengine ⊢
    rw [← hengine, hi, List.append_assoc]
    rfl

end Interpreter

end Courier
