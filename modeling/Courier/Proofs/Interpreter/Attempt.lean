import Courier.Proofs.Interpreter.Branching

namespace Courier

/-- An agent, seen through its states: the token of the line in execution, what conditions see, and
what comes of an action or a wait, which may fail in any way. -/
structure Controls (σ : Type) where
  token : σ → Token
  scene : σ → Scene
  act : σ → Action → Except Fault Answer × σ
  wait : σ → Number → Except Fault Unit × σ

/-- How a line went. -/
structure Attempt (σ : Type) where
  result : Except Fault StepResult
  agent : σ
  /-- The condition that was evaluated, if one was. -/
  evaluated : Option Condition
  /-- What was asked of the agent. -/
  errands : List Errand

variable {σ : Type}

/-- An errand that fails, with the agent after it. -/
def Controls.Fails (k : Controls σ) (x : σ) (f : Fault) (y : σ) : Errand → Prop
  | .act a => k.act x a = (.error f, y)
  | .wait seconds => k.wait x seconds = (.error f, y)

namespace Interpreter

/-- The condition that is evaluated for a line. -/
def evaluated (t : Interpreter) (token : Token) (scene : Scene) (line : String) :
    Option Condition :=
  (t.reporting.openLine token scene line).evaluated.bind (Json.lookup t.conditions)

/-- A line that was opened, carried out. -/
def pursue (k : Controls σ) (x : σ) (evaluated : Option Condition) (i : Instruction) :
    Demand → Attempt σ
  | .finished r => ⟨.ok r, x, evaluated, []⟩
  | .act a =>
    let r := k.act x a
    ⟨r.1.map (.ofAnswer i), r.2, evaluated, [.act a]⟩
  | .wait seconds =>
    let r := k.wait x seconds
    ⟨r.1.map (fun _ => .plain i), r.2, evaluated, [.wait seconds]⟩

/-- Executes a line on an agent. -/
def attempt (k : Controls σ) (t : Interpreter) (x : σ) (line : String) : Attempt σ × Interpreter :=
  let evaluated := t.evaluated (k.token x) (k.scene x) line
  match (t.openLine (k.token x) (k.scene x) line).result with
  | .error f => (⟨.error f, x, evaluated, []⟩, t)
  | .ok (i, d, branches) => (pursue k x evaluated i d, { t with branches })

/-- Why a line fails before anything is evaluated or done for it. -/
inductive Refuses (t : Interpreter) (token : Token) (line : String) : Fault → Prop
  | unread {f : Fault} (hp : Instruction.parse line = .error f) : Refuses t token line f
  | cancelled {i : Instruction} {f : Fault} (hp : Instruction.parse line = .ok i)
      (ht : token.check = .error f) : Refuses t token line f
  | unknownCondition {i : Instruction} {name : String} (hp : Instruction.parse line = .ok i)
      (ht : token.check = .ok ()) (hc : i.command = .branch name)
      (hl : Json.lookup t.conditions name = none) :
      Refuses t token line (.instruction (.unknownCondition name i.text))
  | unopened {i : Instruction} (hp : Instruction.parse line = .ok i) (ht : token.check = .ok ())
      (hc : i.command = .endBranch) (hb : t.branches = []) :
      Refuses t token line (.instruction (.unopened i.text))
  | endless {i : Instruction} {f : Fault} (hp : Instruction.parse line = .ok i)
      (ht : token.check = .ok ()) (hs : t.isSkipping = false) (hd : t.demand i = .error f) :
      Refuses t token line f

/-- The condition of a line, evaluated, fails. -/
structure Trips (t : Interpreter) (token : Token) (scene : Scene) (line : String) (c : Condition)
    (f : Fault) : Prop where
  branch : ∃ i name, Instruction.parse line = .ok i ∧ i.command = .branch name ∧
    Json.lookup t.conditions name = some c
  check : token.check = .ok ()
  reached : t.isSkipping = false
  fails : c.test scene = .error f

section Opening

variable {t : Interpreter} {token : Token} {scene : Scene} {line : String} {i : Instruction}
  {f : Fault}

theorem openLine_checked (hp : Instruction.parse line = .ok i) (ht : token.check = .ok ()) :
    t.openLine token scene line = t.openInstruction scene i := by
  unfold openLine
  rw [hp, ok_bind, ht]
  rfl

theorem isBody_of_demand_error (h : t.demand i = .error f) :
    i.command.opcode.isControl = false := by
  cases hc : i.command with
  | branch name =>
    unfold demand at h
    rw [hc] at h
    cases h
  | endBranch =>
    unfold demand at h
    rw [hc] at h
    cases h
  | _ => rfl

/-- Outside a false branch an instruction opens as it demands. -/
theorem openInstruction_demand (hs : t.isSkipping = false)
    (hc : i.command.opcode.isControl = false) :
    t.openInstruction scene i =
      ⟨none, none, (t.demand i).map (fun d => (i, d, t.branches))⟩ := by
  unfold openInstruction
  split
  · next h => rw [h] at hc; cases hc
  · next h => rw [h] at hc; cases hc
  · rw [if_neg (by simp [hs])]

theorem openLine_refused (h : t.Refuses token line f) :
    t.openLine token scene line = ⟨none, none, .error f⟩ := by
  cases h with
  | unread hp => exact openLine_unread hp
  | cancelled hp ht =>
    unfold openLine
    rw [hp, ok_bind, ht]
    rfl
  | unknownCondition hp ht hc hl =>
    rw [openLine_checked hp ht]
    simp only [openInstruction, hc, openBranch, hl]
  | unopened hp ht hc hb =>
    rw [openLine_checked hp ht]
    simp only [openInstruction, hc, hb]
  | endless hp ht hs hd =>
    rw [openLine_checked hp ht, openInstruction_demand hs (isBody_of_demand_error hd), hd]
    rfl

theorem openLine_tripped {c : Condition} (h : t.Trips token scene line c f) :
    t.openLine token scene line = ⟨c.label, none, .error f⟩ := by
  obtain ⟨⟨i, name, hp, hc, hl⟩, ht, hs, hf⟩ := h
  rw [openLine_checked hp ht]
  simp only [openInstruction, hc, openBranch, hl, hs, Bool.false_eq_true, if_false, hf]
  rfl

/-- All ways in which a line can fail to open. -/
theorem openLine_error (h : (t.openLine token scene line).result = .error f) :
    t.Refuses token line f ∨ ∃ c, t.Trips token scene line c f := by
  cases hp : Instruction.parse line with
  | error g =>
    rw [openLine_unread hp] at h
    cases h
    exact .inl (.unread hp)
  | ok i =>
    cases ht : token.check with
    | error g =>
      have hr : t.Refuses token line g := .cancelled hp ht
      rw [openLine_refused hr] at h
      cases h
      exact .inl hr
    | ok _ =>
      rw [openLine_checked hp ht] at h
      cases hc : i.command with
      | branch name =>
        cases hl : Json.lookup t.conditions name with
        | none =>
          simp only [openInstruction, hc, openBranch, hl] at h
          cases h
          exact .inl (.unknownCondition hp ht hc hl)
        | some c =>
          cases hs : t.isSkipping with
          | true =>
            rw [openInstruction_branch_skipped hs hc hl] at h
            cases h
          | false =>
            cases hv : c.test scene with
            | ok value =>
              rw [openInstruction_branch hs hc hl hv] at h
              cases h
            | error g =>
              simp only [openInstruction, hc, openBranch, hl, hs, Bool.false_eq_true, if_false,
                hv] at h
              cases h
              exact .inr ⟨c, ⟨i, name, hp, hc, hl⟩, ht, hs, hv⟩
      | endBranch =>
        cases hb : t.branches with
        | nil =>
          simp only [openInstruction, hc, hb] at h
          cases h
          exact .inl (.unopened hp ht hc hb)
        | cons b branches =>
          rw [openInstruction_endBranch hc hb] at h
          cases h
      | _ =>
        have hbody : i.command.opcode.isControl = false := by rw [hc]; rfl
        cases hs : t.isSkipping with
        | true =>
          rw [openInstruction_skipped hs hbody] at h
          cases h
        | false =>
          rw [openInstruction_demand hs hbody] at h
          cases hd : t.demand i with
          | ok d =>
            rw [hd] at h
            cases h
          | error g =>
            rw [hd] at h
            cases h
            exact .inl (.endless hp ht hs hd)

theorem Refuses.reporting (h : t.Refuses token line f) : t.reporting.Refuses token line f := by
  cases h with
  | unread hp => exact .unread hp
  | cancelled hp ht => exact .cancelled hp ht
  | unknownCondition hp ht hc hl =>
    exact .unknownCondition hp ht hc (by rw [lookup_reporting, hl]; rfl)
  | unopened hp ht hc hb => exact .unopened hp ht hc hb
  | endless hp ht hs hd => exact .endless hp ht hs hd

theorem evaluated_refused (h : t.Refuses token line f) : t.evaluated token scene line = none := by
  unfold evaluated
  rw [openLine_refused h.reporting]
  rfl

theorem evaluated_tripped {c : Condition} (h : t.Trips token scene line c f) :
    t.evaluated token scene line = some c := by
  obtain ⟨⟨i, name, hp, hc, hl⟩, ht, hs, hf⟩ := h
  have htrips : t.reporting.Trips token scene line (c.reporting name) f :=
    ⟨⟨i, name, hp, hc, by rw [lookup_reporting, hl]; rfl⟩, ht, hs, hf⟩
  unfold evaluated
  rw [openLine_tripped htrips]
  exact hl

end Opening

section Attempt

variable {k : Controls σ} {t : Interpreter} {x : σ} {line : String} {f : Fault}

theorem attempt_opened {i : Instruction} {d : Demand} {branches : List Bool}
    (ho : (t.openLine (k.token x) (k.scene x) line).result = .ok (i, d, branches)) :
    t.attempt k x line =
      (pursue k x (t.evaluated (k.token x) (k.scene x) line) i d, { t with branches }) := by
  unfold attempt
  rw [ho]

theorem attempt_unopened (ho : (t.openLine (k.token x) (k.scene x) line).result = .error f) :
    t.attempt k x line =
      (⟨.error f, x, t.evaluated (k.token x) (k.scene x) line, []⟩, t) := by
  unfold attempt
  rw [ho]

theorem attempt_refused (h : t.Refuses (k.token x) line f) :
    t.attempt k x line = (⟨.error f, x, none, []⟩, t) := by
  have ho : (t.openLine (k.token x) (k.scene x) line).result = .error f := by
    rw [openLine_refused h]
  rw [attempt_unopened ho, evaluated_refused h]

theorem attempt_tripped {c : Condition} (h : t.Trips (k.token x) (k.scene x) line c f) :
    t.attempt k x line = (⟨.error f, x, some c, []⟩, t) := by
  have ho : (t.openLine (k.token x) (k.scene x) line).result = .error f := by
    rw [openLine_tripped h]
  rw [attempt_unopened ho, evaluated_tripped h]

/-- What was asked of the agent for a line that was opened can only fail as an action or a wait, and
for those nothing is evaluated and the branches stay. -/
theorem pursue_failed {i : Instruction} {d : Demand} {branches : List Bool}
    (ho : (t.openLine (k.token x) (k.scene x) line).result = .ok (i, d, branches))
    (hf : (pursue k x (t.evaluated (k.token x) (k.scene x) line) i d).result = .error f) :
    branches = t.branches ∧ ∃ errand y, k.Fails x f y errand ∧
      pursue k x (t.evaluated (k.token x) (k.scene x) line) i d =
        ⟨.error f, y, none, [errand]⟩ := by
  -- Which condition was evaluated shows on the interpreter whose conditions report their names; it
  -- opens lines as this one does.
  have hr := ho
  rw [← openLine_reporting] at hr
  obtain ⟨_, hopens⟩ := openLine_opens hr
  have heval : (t.reporting.openLine (k.token x) (k.scene x) line).evaluated = none →
      t.evaluated (k.token x) (k.scene x) line = none := by
    intro h
    unfold evaluated
    rw [h]
    rfl
  generalize (t.reporting.openLine (k.token x) (k.scene x) line).evaluated = evaluated
    at hopens heval
  cases hopens with
  | @act a hs ha =>
    rw [heval rfl] at hf ⊢
    cases hk : k.act x a with
    | mk r y =>
      cases r with
      | ok answer =>
        simp only [pursue, hk] at hf
        cases hf
      | error g =>
        simp only [pursue, hk] at hf
        cases hf
        exact ⟨rfl, .act a, y, hk, by simp only [pursue, hk]; rfl⟩
  | @wait units seconds hs hc hw =>
    rw [heval rfl] at hf ⊢
    cases hk : k.wait x seconds with
    | mk r y =>
      cases r with
      | ok _ =>
        simp only [pursue, hk] at hf
        cases hf
      | error g =>
        simp only [pursue, hk] at hf
        cases hf
        exact ⟨rfl, .wait seconds, y, hk, by simp only [pursue, hk]; rfl⟩
  | _ => cases hf

/-- A line that fails changes nothing in the interpreter. It fails before anything was evaluated or
asked of the agent, or else its condition failed, or the one action or wait asked for it did. -/
theorem failure_keeps_interpreter (k : Controls σ) (t : Interpreter) (x : σ) (line : String) :
    (∀ f, t.Refuses (k.token x) line f → (t.attempt k x line).1 = ⟨.error f, x, none, []⟩) ∧
      ∀ f, (t.attempt k x line).1.result = .error f → (t.attempt k x line).2 = t ∧
        (t.Refuses (k.token x) line f ∨
          (∃ c, t.Trips (k.token x) (k.scene x) line c f ∧
            (t.attempt k x line).1 = ⟨.error f, x, some c, []⟩) ∨
          ∃ errand y, k.Fails x f y errand ∧
            (t.attempt k x line).1 = ⟨.error f, y, none, [errand]⟩) := by
  refine ⟨fun f h => by rw [attempt_refused h], ?_⟩
  intro f hf
  cases ho : (t.openLine (k.token x) (k.scene x) line).result with
  | error g =>
    rw [attempt_unopened ho] at hf
    cases hf
    rcases openLine_error ho with h | ⟨c, h⟩
    · exact ⟨by rw [attempt_refused h], .inl h⟩
    · exact ⟨by rw [attempt_tripped h], .inr (.inl ⟨c, h, by rw [attempt_tripped h]⟩)⟩
  | ok o =>
    obtain ⟨i, d, branches⟩ := o
    rw [attempt_opened ho] at hf ⊢
    obtain ⟨rfl, errand, y, hfails, hp⟩ := pursue_failed ho hf
    exact ⟨rfl, .inr (.inr ⟨errand, y, hfails, hp⟩)⟩

/-- An agent that counts what is asked of it and is called off each time. -/
def recalled : Controls Nat where
  token _ := .fresh
  scene _ := .ofStance Engine.corridor.world (.start 1)
  act n _ := (.error (.cancelled "paused"), n+1)
  wait n _ := (.error (.cancelled "paused"), n+1)

theorem failure_keeps_interpreter_recalled :
    let t : Interpreter := ⟨.standard, Condition.standard, [true, true]⟩
    t.Refuses (recalled.token 0) "if night" (.instruction (.unknownCondition "NIGHT" "if night")) ∧
      (t.attempt recalled 0 "if night").1 =
        ⟨.error (.instruction (.unknownCondition "NIGHT" "if night")), 0, none, []⟩ ∧
      (t.attempt recalled 0 "PICKUP").1.result = .error (.cancelled "paused") ∧
      (t.attempt recalled 0 "PICKUP").1.agent = 1 ∧ (t.attempt recalled 0 "PICKUP").2 = t := by
  intro t
  have hr : t.Refuses (recalled.token 0) "if night"
      (.instruction (.unknownCondition "NIGHT" "if night")) :=
    .unknownCondition (i := ⟨"if night", .branch "NIGHT"⟩) rfl rfl rfl rfl
  have hf : (t.attempt recalled 0 "PICKUP").1.result = .error (.cancelled "paused") := rfl
  have hkeeps := failure_keeps_interpreter recalled t 0
  exact ⟨hr, (hkeeps "if night").1 _ hr, hf, rfl, ((hkeeps "PICKUP").2 _ hf).1⟩

end Attempt

end Interpreter

/-- The engine on its clock is such an agent. -/
def Stage.controls : Controls Stage where
  token x := x.performance.watch.token
  scene x := .ofStance x.engine.world x.engine.committed
  act := Stage.act
  wait := Stage.wait

theorem Interpreter.execute_eq (t : Interpreter) (x : Stage) (line : String) :
    t.execute x line = ((t.attempt Stage.controls x line).1.result,
      (t.attempt Stage.controls x line).2, (t.attempt Stage.controls x line).1.agent) := by
  unfold execute attempt carryOut
  dsimp only [Stage.controls]
  cases (t.openLine x.performance.watch.token
      (.ofStance x.engine.world x.engine.committed) line).result with
  | error f => rfl
  | ok o =>
    obtain ⟨i, d, branches⟩ := o
    cases d <;> rfl

end Courier
