import Courier.Proofs.Program.Compilation

namespace Courier

/-- How a run ends. -/
structure Verdict where
  status : Status
  fault : Option Fault
  current : Option Line
  pending : List Line
  /-- The instructions that have a result, in order. -/
  read : List Instruction

namespace Verdict

/-- An instruction at a depth of open branches: it comes with the depth after it. -/
def ofInstruction (depth : Nat) (i : Instruction) : Except Fault (Instruction × Nat) :=
  match i.command with
  | .branch name =>
    match Json.lookup Condition.standard name with
    | some _ => .ok (i, depth+1)
    | none => .error (.instruction (.unknownCondition name i.text))
  | .endBranch =>
    match depth with
    | 0 => .error (.instruction (.unopened i.text))
    | depth+1 => .ok (i, depth)
  | _ => .ok (i, depth)

def ofLine (depth : Nat) (line : Line) : Except Fault (Instruction × Nat) :=
  Instruction.parse line.plain >>= ofInstruction depth

def ofEnd (depth : Nat) (read : List Instruction) : Verdict :=
  if depth = 0 then ⟨.idle, none, none, [], read⟩
  else ⟨.error, some (.instruction (.unclosed depth)), none, [], read⟩

/-- What a line comes to, followed by the lines after it if it is not at fault. -/
def ofScan (read : List Instruction) (line : Line) (lines : List Line)
    (rest : Nat → List Instruction → Verdict) : Except Fault (Instruction × Nat) → Verdict
  | .ok (i, depth) => rest depth (read ++ [i])
  | .error f => ⟨.error, some f, some line, lines, read⟩

/-- The lines are scanned up to the first one at fault, also where they would be skipped. -/
def ofLines (depth : Nat) (read : List Instruction) : List Line → Verdict
  | [] => ofEnd depth read
  | line :: lines =>
    ofScan read line lines (fun depth read => ofLines depth read lines) (ofLine depth line)

def ofText (lines : List Line) : Verdict := ofLines 0 [] lines

theorem status_ofLines (depth : Nat) (read : List Instruction) (lines : List Line) :
    (ofLines depth read lines).status ≠ .running := by
  induction lines generalizing depth read with
  | nil =>
    rw [ofLines, ofEnd]
    split <;> simp
  | cons line lines ih =>
    rw [ofLines]
    cases ofLine depth line with
    | ok x => exact ih x.2 (read ++ [x.1])
    | error f => simp [ofScan]

theorem ofInstruction_act {depth : Nat} {i : Instruction} {a : Action}
    (ha : i.command.action? = some a) : ofInstruction depth i = .ok (i, depth) := by
  cases hc : i.command <;> simp [hc, Command.action?] at ha <;> simp only [ofInstruction, hc]

end Verdict

def Outcome.verdict (o : Outcome) : Verdict where
  status := o.queue.status
  fault := o.queue.fault
  current := o.queue.current
  pending := o.queue.pending
  read := o.results.map (·.instruction)

/-- Waits that end, for every count that some lines wait for. -/
def WaitSettings.IsTimelyFor (t : WaitSettings) (lines : List Line) : Prop :=
  ∀ line ∈ lines, ∀ i n, Instruction.parse line.plain = .ok i → i.command = .wait n → t.IsTimely n

namespace Interpreter

variable {t : Interpreter} {i : Instruction} {scene : Scene}

theorem openInstruction_branch_unknown {name : String} (hc : i.command = .branch name)
    (hl : Json.lookup t.conditions name = none) :
    t.openInstruction scene i =
      ⟨none, none, .error (.instruction (.unknownCondition name i.text))⟩ := by
  simp only [openInstruction, hc, openBranch, hl]

theorem openInstruction_unopened (hc : i.command = .endBranch) (hb : t.branches = []) :
    t.openInstruction scene i = ⟨none, none, .error (.instruction (.unopened i.text))⟩ := by
  simp only [openInstruction, hc, hb]

end Interpreter

namespace Course

/-- A course that comes to what a scan of its line says. -/
inductive Agrees (c : Course) : Except Fault (Instruction × Nat) → Prop
  | ok {r : StepResult} (h : c.result = .ok r) : Agrees c (.ok (r.instruction, c.branches.length))
  | error {f : Fault} (h : c.result = .error f) : Agrees c (.error f)

variable {t : Interpreter} {e : Engine} {line : Line} {i : Instruction}

theorem agrees_branch (ht : t.conditions = Condition.standard) {name : String}
    (hc : i.command = .branch name) :
    (ofOpening t.branches e (t.openInstruction (.ofStance e.world e.committed) i).result).Agrees
      (Verdict.ofInstruction t.branches.length i) := by
  cases hl : Json.lookup Condition.standard name with
  | none =>
    rw [Interpreter.openInstruction_branch_unknown hc (by rw [ht]; exact hl)]
    simp only [Verdict.ofInstruction, hc, hl]
    exact .error rfl
  | some c =>
    have hlt : Json.lookup t.conditions name = some c := by rw [ht]; exact hl
    simp only [Verdict.ofInstruction, hc, hl]
    cases hs : t.isSkipping with
    | true =>
      rw [Interpreter.openInstruction_branch_skipped hs hc hlt]
      exact .ok (r := { StepResult.skip i with condition := some false }) rfl
    | false =>
      obtain ⟨value, hv⟩ := Condition.test_standard hl e.world e.committed
      rw [Interpreter.openInstruction_branch hs hc hlt hv]
      exact .ok (r := { StepResult.plain i with condition := some value }) rfl

theorem agrees_endBranch (hc : i.command = .endBranch) :
    (ofOpening t.branches e (t.openInstruction (.ofStance e.world e.committed) i).result).Agrees
      (Verdict.ofInstruction t.branches.length i) := by
  cases hb : t.branches with
  | nil =>
    rw [Interpreter.openInstruction_unopened hc hb]
    simp only [Verdict.ofInstruction, hc, List.length_nil]
    exact .error rfl
  | cons b branches =>
    rw [Interpreter.openInstruction_endBranch hc hb]
    simp only [Verdict.ofInstruction, hc, List.length_cons]
    exact .ok (r := .plain i) rfl

theorem agrees_skipped (hs : t.isSkipping) (hc : i.command.opcode.isControl = false) :
    (ofOpening t.branches e (t.openInstruction (.ofStance e.world e.committed) i).result).Agrees
      (.ok (i, t.branches.length)) := by
  rw [Interpreter.openInstruction_skipped hs hc]
  exact .ok (r := .skip i) rfl

theorem agrees_act (hm : e.settings.IsTimely) {a : Action} (ha : i.command.action? = some a) :
    (ofOpening t.branches e (t.openInstruction (.ofStance e.world e.committed) i).result).Agrees
      (Verdict.ofInstruction t.branches.length i) := by
  rw [Verdict.ofInstruction_act ha]
  by_cases hs : t.isSkipping
  · exact agrees_skipped hs (Command.isControl_of_action ha)
  · obtain ⟨hanswer, _, _⟩ := Action.whole_achieves (w := e.world) hm.isPaced e.committed a
    rw [Interpreter.openInstruction_act (by simpa using hs) ha]
    let c : Course :=
      ofOpening t.branches e (.ok (i, Demand.act a, t.branches))
    have hr : c.result = .ok (.ofAnswer i (a.feat e.world e.committed).answer) := by
      change (a.whole e.settings e.world e.committed).1.map (StepResult.ofAnswer i) = _
      rw [hanswer]
      rfl
    have hi : (StepResult.ofAnswer i (a.feat e.world e.committed).answer).instruction = i := by
      cases (a.feat e.world e.committed).answer <;> rfl
    have h := Agrees.ok hr
    rwa [hi] at h

theorem agrees_wait {units : Nat} (hc : i.command = .wait units)
    (hw : t.settings.IsTimely units) :
    (ofOpening t.branches e (t.openInstruction (.ofStance e.world e.committed) i).result).Agrees
      (Verdict.ofInstruction t.branches.length i) := by
  have hv : Verdict.ofInstruction t.branches.length i = .ok (i, t.branches.length) := by
    simp only [Verdict.ofInstruction, hc]
  rw [hv]
  by_cases hs : t.isSkipping
  · exact agrees_skipped hs (by rw [hc]; rfl)
  · obtain ⟨seconds, hsec, hpause⟩ := hw
    rw [Interpreter.openInstruction_wait (by simpa using hs) hc hsec]
    refine .ok (r := .plain i) ?_
    change (seconds.checkPause.mapError Fault.number).map (fun _ => StepResult.plain i) = _
    rw [hpause.timed]
    rfl

/-- A line comes to what the scan says of it: no action fails, no wait, and no condition. -/
theorem ofLine_agrees (ht : t.conditions = Condition.standard) (hm : e.settings.IsTimely)
    (hw : t.settings.IsTimelyFor [line]) :
    (ofLine t e line).Agrees (Verdict.ofLine t.branches.length line) := by
  unfold ofLine Verdict.ofLine Spell.opening
  cases hp : Instruction.parse line.plain with
  | error f =>
    rw [Interpreter.openLine_unread hp]
    exact .error rfl
  | ok i =>
    rw [Interpreter.openLine_fresh hp, ok_bind]
    cases ha : i.command.action? with
    | some a => exact agrees_act hm ha
    | none =>
      cases hc : i.command with
      | branch name => exact agrees_branch ht hc
      | endBranch => exact agrees_endBranch hc
      | wait units => exact agrees_wait hc (hw line (by simp) i units hp hc)
      | _ => simp [hc, Command.action?] at ha

end Course

namespace Outlook

/-- An outlook that a verdict tells. -/
structure Confirms (o : Outlook) (v : Verdict) : Prop where
  status : v.status = if o.fault.isSome then .error else .idle
  fault : o.fault = v.fault
  current : o.current = v.current
  pending : o.pending = v.pending
  read : o.results.map (·.instruction) = v.read

theorem ofEnd_confirms (t : Interpreter) (e : Engine) (done : List StepResult) :
    (ofEnd t e done).Confirms (.ofEnd t.branches.length (done.map (·.instruction))) := by
  cases hb : t.branches with
  | nil =>
    have hc : t.checkBalanced = .ok () := by simp [Interpreter.checkBalanced, hb]
    simp only [ofEnd, hc]
    exact ⟨rfl, rfl, rfl, rfl, rfl⟩
  | cons b branches =>
    have hc : t.checkBalanced = .error (.instruction (.unclosed (branches.length+1))) := by
      simp [Interpreter.checkBalanced, Interpreter.depth, hb]
    simp only [ofEnd, hc]
    exact ⟨rfl, rfl, rfl, rfl, rfl⟩

/-- The scan follows the run line by line: the depth is the number of open branches, and the
instructions read are those of the results. -/
theorem ofLines_confirms {t : Interpreter} {e : Engine} (ht : t.conditions = Condition.standard)
    (hm : e.settings.IsTimely) {lines : List Line} (hw : t.settings.IsTimelyFor lines)
    (done : List StepResult) :
    (ofLines t e done lines).Confirms
      (.ofLines t.branches.length (done.map (·.instruction)) lines) := by
  induction lines generalizing t e done with
  | nil => exact ofEnd_confirms t e done
  | cons line lines ih =>
    have hline : t.settings.IsTimelyFor [line] := by
      intro l hl
      have he : l = line := by simpa using hl
      exact hw l (by simp [he])
    have hrest : t.settings.IsTimelyFor lines := fun l hl => hw l (by simp [hl])
    have ha := Course.ofLine_agrees ht hm hline
    rw [ofLines, ofCourse, Verdict.ofLines]
    generalize Verdict.ofLine t.branches.length line = v at ha ⊢
    cases ha with
    | error hr =>
      rw [hr]
      exact ⟨rfl, rfl, rfl, rfl, rfl⟩
    | @ok r hr =>
      have hf : (e.applyAll (Course.ofLine t e line).effects).settings.IsTimely := by
        rw [Engine.settings_applyAll]
        exact hm
      have hu := ih (t := { t with branches := (Course.ofLine t e line).branches }) ht hf hrest
        (done ++ [r])
      rw [hr]
      simpa [Verdict.ofScan] using hu

end Outlook

section Verdict

variable {w : World} {pose : Option PoseEntry} {s : Stance} {m : MotionSettings}
  {wait : WaitSettings} {lines : List Line}

theorem Queue.Undisturbed.status_eq {q : Queue} (h : q.Undisturbed) (hs : q.status ≠ .running) :
    q.status = if q.fault.isSome then .error else .idle := by
  rcases h.status with ⟨hr, _⟩ | ⟨hi, hf⟩ | ⟨he, hf⟩
  · exact absurd hr hs
  · rw [hi, hf]
    rfl
  · rw [he, hf]
    rfl

/-- A run comes to an end, and the end is the outlook on its lines. -/
theorem Outcome.ofEngine_ends (e : Engine) (wait : WaitSettings) (lines : List Line) :
    let q := (ofEngine e wait lines).queue
    q.status = (if q.fault.isSome then .error else .idle) ∧
      q.final = .ofLines (Interpreter.make wait []).reset e [] lines := by
  obtain ⟨_, hu, hs, hf, _⟩ := Queue.run_settles (Interpreter.make_isHonest wait) e lines
  unfold ofEngine
  generalize ((Queue.make (.make wait []) e).call (.run lines)).settle = r at hu hs hf ⊢
  exact ⟨hu.status_eq hs, hf⟩

/-- A run shows the frames of all that its lines do, in order. -/
theorem Outcome.frames_ofEngine (e : Engine) (wait : WaitSettings) (lines : List Line) :
    (ofEngine e wait lines).frames.map (·.2) =
      Effect.frames (Outlook.effects (Interpreter.make wait []).reset e lines) := by
  obtain ⟨_, _, _, _, hshots⟩ := Queue.run_settles (Interpreter.make_isHonest wait) e lines
  refine Eq.trans ?_ hshots
  rw [frames, Queue.shots, List.map_filterMap]
  congr 1
  funext x
  cases x <;> rfl

theorem Outcome.verdict_ofEngine {e : Engine} (hm : e.settings.IsTimely)
    (hw : wait.IsTimelyFor lines) : (ofEngine e wait lines).verdict = .ofText lines := by
  have hc : (Outlook.ofLines (Interpreter.make wait []).reset e [] lines).Confirms
      (.ofText lines) := Outlook.ofLines_confirms rfl hm hw []
  obtain ⟨hs, hf⟩ := ofEngine_ends e wait lines
  generalize ofEngine e wait lines = o at hs hf ⊢
  rw [← hf] at hc
  unfold verdict
  rw [Verdict.mk.injEq]
  exact ⟨hs.trans hc.status.symm, hc.fault, hc.current, hc.pending, hc.read⟩

theorem Outcome.ofRun_of_start (h : Engine.startStance w pose = .ok s) (m : MotionSettings)
    (wait : WaitSettings) (lines : List Line) :
    ∃ e : Engine, e.settings = m ∧ ofRun lines w pose m wait = .ok (.ofEngine e wait lines) := by
  refine ⟨{ world := w, settings := m, committed := s, shown := .still s, observers := [],
            completed := 0 }, rfl, ?_⟩
  unfold ofRun Engine.make
  rw [h]
  rfl

/-- The outcome of a run is that of an engine at its start. -/
theorem Outcome.exists_engine {o : Outcome} (h : ofRun lines w pose m wait = .ok o) :
    ∃ (s : Stance) (e : Engine), Engine.startStance w pose = .ok s ∧
      e = ⟨w, m, s, .still s, [], 0, []⟩ ∧ o = .ofEngine e wait lines := by
  obtain ⟨e, he, ho⟩ := bind_eq_ok h
  obtain ⟨s, hs, rfl⟩ := Queue.make_eq_ok he
  exact ⟨s, _, hs, rfl, (Except.ok.inj ho).symm⟩

theorem Outcome.status_ofEngine (e : Engine) (wait : WaitSettings) (lines : List Line) :
    (ofEngine e wait lines).queue.status = .idle ∨
      (ofEngine e wait lines).queue.status = .error := by
  obtain ⟨hstatus, _⟩ := ofEngine_ends e wait lines
  rw [hstatus]
  split
  · exact .inr rfl
  · exact .inl rfl

/-- The text of a program decides how its run ends: with timely settings the run comes to an end,
and the end is the verdict on the lines, so that it is the same wherever else they are run. -/
theorem Outcome.decided_by_text (h : Engine.startStance w pose = .ok s) (hm : m.IsTimely)
    (hw : wait.IsTimelyFor lines) :
    ∃ o, ofRun lines w pose m wait = .ok o ∧
      o.queue.status ≠ .running ∧ o.verdict = .ofText lines ∧
      ∀ w' pose' m' wait' o', m'.IsTimely → wait'.IsTimelyFor lines →
        ofRun lines w' pose' m' wait' = .ok o' → o'.verdict = o.verdict := by
  obtain ⟨e, rfl, hr⟩ := ofRun_of_start h m wait lines
  have hv : (ofEngine e wait lines).verdict = .ofText lines := verdict_ofEngine hm hw
  generalize ofEngine e wait lines = o at hr hv
  have hs : o.queue.status = (Verdict.ofText lines).status := congrArg Verdict.status hv
  refine ⟨o, hr, ?_, hv, ?_⟩
  · rw [hs]
    exact Verdict.status_ofLines 0 [] lines
  · intro w' pose' m' wait' o' hm' hw' hr'
    obtain ⟨s', e', _, he', rfl⟩ := exists_engine hr'
    have hm : e'.settings.IsTimely := by
      rw [he']
      exact hm'
    rw [hv]
    exact verdict_ofEngine hm hw'

theorem Outcome.decided_by_text_corridor :
    ∃ o, ofRun [.text "IF IS_WALL_AHEAD", .text "PICKUP", .text "WAIT 2", .text "END_IF",
        .text "END_IF", .text "TURN_LEFT"] Engine.corridor.world none .standard .standard = .ok o ∧
      o.queue.status = .error ∧ o.queue.current = some (.text "END_IF") ∧
      o.queue.pending = [.text "TURN_LEFT"] ∧ o.results.length = 4 := by
  have ht : WaitSettings.standard.IsTimely 2 :=
    WaitSettings.standard_isTimely (k := 2) (by decide) (by decide)
  have hwait : WaitSettings.standard.IsTimelyFor [.text "IF IS_WALL_AHEAD", .text "PICKUP",
      .text "WAIT 2", .text "END_IF", .text "END_IF", .text "TURN_LEFT"] := by
    intro line hline i n hp hc
    simp only [List.mem_cons, List.not_mem_nil, or_false] at hline
    rcases hline with rfl | rfl | rfl | rfl | rfl | rfl <;> cases hp <;> cases hc
    exact ht
  have hstart : Engine.startStance Engine.corridor.world none = .ok (.start 1) := rfl
  obtain ⟨o, ho, _, hv, _⟩ := decided_by_text hstart MotionSettings.standard_isTimely hwait
  have hlength : o.verdict.read.length = 4 := by
    rw [hv]
    rfl
  exact ⟨o, ho, congrArg Verdict.status hv, congrArg Verdict.current hv,
    congrArg Verdict.pending hv, by simpa [verdict] using hlength⟩

/-- A step with more frames than binary64 numbers reach to fails, though nothing is wrong with its
line. -/
theorem Outcome.ofEngine_stuck {e : Engine} {n : Int} {f : NumberFault}
    (hn : e.settings.frames = .int n) (hi : e.settings.frameInterval = .error f)
    (he : e.world.canEnter (e.committed.ahead 1)) (wait : WaitSettings) :
    (ofEngine e wait [.text "MOVE_FORWARD 1"]).queue.status = .error ∧
      (ofEngine e wait [.text "MOVE_FORWARD 1"]).queue.fault = some (.number f) := by
  have hparse : Instruction.parse "MOVE_FORWARD 1" = .ok ⟨"MOVE_FORWARD 1", .moveForward 1⟩ := by
    rfl
  have hp : Instruction.parse (Json.Value.text "MOVE_FORWARD 1").plain =
      .ok ⟨"MOVE_FORWARD 1", .moveForward 1⟩ := hparse
  have hline : (Course.ofLine (Interpreter.make wait []).reset e (.text "MOVE_FORWARD 1")).result =
      .error (.number f) := by
    rw [Course.ofLine_act (a := .move false 1) (by rfl) hp rfl]
    dsimp only
    rw [Action.whole_stuck hn hi he]
    rfl
  obtain ⟨hs, hf⟩ := ofEngine_ends e wait [.text "MOVE_FORWARD 1"]
  generalize ofEngine e wait [.text "MOVE_FORWARD 1"] = o at hs hf ⊢
  have hfault := congrArg Outlook.fault hf
  rw [Outlook.ofLines, Outlook.ofCourse, hline] at hfault
  have hq : o.queue.fault = some (.number f) := hfault
  rw [hq] at hs
  exact ⟨hs, hq⟩

theorem Outcome.decided_by_text_vast :
    ∃ o, ofRun [.text "MOVE_FORWARD 1"] Engine.corridor.world none
        { MotionSettings.instant with frames := .int (10^309) } .standard = .ok o ∧
      o.queue.status = .error ∧ o.queue.fault = some (.number .outOfRange) ∧
      (Verdict.ofText [.text "MOVE_FORWARD 1"]).status = .idle ∧
      (Verdict.ofText [.text "MOVE_FORWARD 1"]).fault = none := by
  have hn : Number.toBinary64 (.int (10^309)) = .error .outOfRange :=
    Number.toBinary64_of_infinite (by decide +kernel)
  let e : Engine :=
    { Engine.corridor with settings := { MotionSettings.instant with frames := .int (10^309) } }
  have hi : e.settings.frameInterval = .error .outOfRange :=
    MotionSettings.frameInterval_large hn rfl rfl
  obtain ⟨hstatus, hfault⟩ := ofEngine_stuck (e := e) rfl hi (by rfl) .standard
  exact ⟨.ofEngine e .standard [.text "MOVE_FORWARD 1"], rfl, hstatus, hfault, by rfl, by rfl⟩

end Verdict

end Courier
