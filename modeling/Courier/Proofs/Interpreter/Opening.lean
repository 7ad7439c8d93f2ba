import Courier.Interpreter.Basic

namespace Courier

def Command.action? : Command → Option Action
  | moveForward cells => some (.move false cells)
  | moveBackward cells => some (.move true cells)
  | turnLeft => some (.turn true)
  | turnRight => some (.turn false)
  | pickup => some .pickup
  | dropoff => some .dropoff
  | _ => none

theorem Command.isControl_of_action {c : Command} {a : Action} (ha : c.action? = some a) :
    c.opcode.isControl = false := by
  cases c <;> simp [Command.action?] at ha <;> rfl

namespace Interpreter

variable {t : Interpreter} {i j : Instruction} {d : Demand} {branches : List Bool}

theorem demand_act {a : Action} : t.demand i = .ok (.act a) ↔ i.command.action? = some a := by
  unfold demand
  cases i.command with
  | wait units =>
    refine ⟨?_, fun h => by cases h⟩
    intro h
    obtain ⟨_, _, h⟩ := bind_eq_ok h
    cases h
  | _ => simp [Command.action?]

theorem demand_error {f : Fault} (h : t.demand i = .error f) :
    ∃ n, f = .number n := by
  unfold demand at h
  split at h
  case h_7 units _ =>
    cases hs : t.settings.seconds (.int units) with
    | ok seconds => rw [hs] at h; cases h
    | error n => rw [hs] at h; cases h; exact ⟨n, rfl⟩
  all_goals cases h

theorem openLine_fresh {scene : Scene} {line : String} (h : Instruction.parse line = .ok i) :
    t.openLine .fresh scene line = t.openInstruction scene i := by
  unfold openLine
  rw [h]
  rfl

theorem openLine_unread {token : Token} {scene : Scene} {line : String} {f : Fault}
    (h : Instruction.parse line = .error f) :
    t.openLine token scene line = ⟨none, none, .error f⟩ := by
  unfold openLine
  rw [h]
  rfl

theorem openInstruction_act {scene : Scene} {a : Action} (hs : t.isSkipping = false)
    (ha : i.command.action? = some a) :
    t.openInstruction scene i = ⟨none, none, .ok (i, .act a, t.branches)⟩ := by
  have hd : t.demand i = .ok (.act a) := demand_act.mpr ha
  unfold openInstruction
  split
  · next h => rw [h] at ha; cases ha
  · next h => rw [h] at ha; cases ha
  · rw [hs, hd]
    rfl

theorem openInstruction_wait {scene : Scene} (hs : t.isSkipping = false) {units : Nat}
    (hc : i.command = .wait units) {seconds : Number}
    (hw : t.settings.seconds (.int units) = .ok seconds) :
    t.openInstruction scene i = ⟨none, none, .ok (i, .wait seconds, t.branches)⟩ := by
  unfold openInstruction demand
  rw [hc]
  dsimp only
  rw [hs, hw]
  rfl

theorem openInstruction_skipped {scene : Scene} (hs : t.isSkipping)
    (hc : i.command.opcode.isControl = false) :
    t.openInstruction scene i = ⟨none, some i.text, .ok (i, .finished (.skip i), t.branches)⟩ := by
  unfold openInstruction
  split
  · next h => rw [h] at hc; cases hc
  · next h => rw [h] at hc; cases hc
  · rw [if_pos hs]

section Branch

variable {scene : Scene} {name : String} {c : Condition}

theorem openInstruction_branch_skipped (hs : t.isSkipping) (hc : i.command = .branch name)
    (hl : Json.lookup t.conditions name = some c) :
    t.openInstruction scene i =
      ⟨none, none, .ok (i, .finished { StepResult.skip i with condition := some false },
        false :: t.branches)⟩ := by
  unfold openInstruction
  rw [hc]
  dsimp only
  unfold openBranch
  rw [hl]
  dsimp only
  rw [if_pos hs]

theorem openInstruction_branch (hs : t.isSkipping = false) (hc : i.command = .branch name)
    (hl : Json.lookup t.conditions name = some c) {value : Bool}
    (hv : c.test scene = .ok value) :
    t.openInstruction scene i =
      ⟨c.label, none, .ok (i, .finished { StepResult.plain i with condition := some value },
        value :: t.branches)⟩ := by
  unfold openInstruction
  rw [hc]
  dsimp only
  unfold openBranch
  rw [hl]
  dsimp only
  rw [if_neg (by simp [hs]), hv]
  rfl

theorem openInstruction_endBranch (hc : i.command = .endBranch) {b : Bool}
    (hb : t.branches = b :: branches) :
    t.openInstruction scene i = ⟨none, none, .ok (i, .finished (.plain i), branches)⟩ := by
  unfold openInstruction
  rw [hc]
  dsimp only
  rw [hb]

end Branch

/-- All that a line can come to when it opens: the condition evaluated for it, what it asks for and
the branches open after it. -/
inductive Opens (t : Interpreter) (scene : Scene) (i : Instruction) :
    Option String → Demand → List Bool → Prop
  | branch {name : String} {c : Condition} {value : Bool} (hs : t.isSkipping = false)
      (hc : i.command = .branch name) (hl : Json.lookup t.conditions name = some c)
      (hv : c.test scene = .ok value) :
      Opens t scene i c.label (.finished { StepResult.plain i with condition := some value })
        (value :: t.branches)
  | branchSkipped {name : String} {c : Condition} (hs : t.isSkipping)
      (hc : i.command = .branch name) (hl : Json.lookup t.conditions name = some c) :
      Opens t scene i none (.finished { StepResult.skip i with condition := some false })
        (false :: t.branches)
  | endBranch {b : Bool} {branches : List Bool} (hc : i.command = .endBranch)
      (hb : t.branches = b :: branches) : Opens t scene i none (.finished (.plain i)) branches
  | skipped (hs : t.isSkipping) (hc : i.command.opcode.isControl = false) :
      Opens t scene i none (.finished (.skip i)) t.branches
  | act {a : Action} (hs : t.isSkipping = false) (ha : i.command.action? = some a) :
      Opens t scene i none (.act a) t.branches
  | wait {units : Nat} {seconds : Number} (hs : t.isSkipping = false)
      (hc : i.command = .wait units) (hw : t.settings.seconds (.int units) = .ok seconds) :
      Opens t scene i none (.wait seconds) t.branches

theorem openInstruction_opens {scene : Scene}
    (h : (t.openInstruction scene i).result = .ok (j, d, branches)) :
    j = i ∧ t.Opens scene i (t.openInstruction scene i).evaluated d branches := by
  cases ha : i.command.action? with
  | some a =>
    have hc : i.command.opcode.isControl = false := Command.isControl_of_action ha
    by_cases hs : t.isSkipping
    · rw [openInstruction_skipped hs hc] at h ⊢
      cases h
      exact ⟨rfl, .skipped hs hc⟩
    · rw [openInstruction_act (by simpa using hs) ha] at h ⊢
      cases h
      exact ⟨rfl, .act (by simpa using hs) ha⟩
  | none =>
    cases hc : i.command with
    | branch name =>
      cases hl : Json.lookup t.conditions name with
      | none =>
        simp only [openInstruction, hc, openBranch, hl] at h
        cases h
      | some c =>
        by_cases hs : t.isSkipping
        · rw [openInstruction_branch_skipped hs hc hl] at h ⊢
          cases h
          exact ⟨rfl, .branchSkipped hs hc hl⟩
        · cases hv : c.test scene with
          | error f =>
            simp only [openInstruction, hc, openBranch, hl, if_neg hs, hv] at h
            cases h
          | ok value =>
            rw [openInstruction_branch (by simpa using hs) hc hl hv] at h ⊢
            cases h
            exact ⟨rfl, .branch (by simpa using hs) hc hl hv⟩
    | endBranch =>
      cases hb : t.branches with
      | nil =>
        simp only [openInstruction, hc, hb] at h
        cases h
      | cons b rest =>
        rw [openInstruction_endBranch hc hb] at h ⊢
        cases h
        exact ⟨rfl, .endBranch hc hb⟩
    | wait units =>
      by_cases hs : t.isSkipping
      · rw [openInstruction_skipped hs (by rw [hc]; rfl)] at h ⊢
        cases h
        exact ⟨rfl, .skipped hs (by rw [hc]; rfl)⟩
      · cases hw : t.settings.seconds (.int units) with
        | error f =>
          simp only [openInstruction, hc, if_neg hs, demand, hw] at h
          cases h
        | ok seconds =>
          rw [openInstruction_wait (by simpa using hs) hc hw] at h ⊢
          cases h
          exact ⟨rfl, .wait (by simpa using hs) hc hw⟩
    | _ => simp [hc, Command.action?] at ha

/-- A line that opens is read, and opens as its instruction does. -/
theorem openLine_opens {token : Token} {scene : Scene} {line : String}
    (h : (t.openLine token scene line).result = .ok (j, d, branches)) :
    Instruction.parse line = .ok j ∧
      t.Opens scene j (t.openLine token scene line).evaluated d branches := by
  unfold openLine at h ⊢
  split at h
  · next i hr =>
    obtain ⟨k, hp, hr⟩ := bind_eq_ok hr
    obtain ⟨_, _, hr⟩ := bind_eq_ok hr
    cases hr
    obtain ⟨rfl, ho⟩ := openInstruction_opens h
    exact ⟨hp, ho⟩
  · cases h

/-- A line that asks for more acts only as its instruction demands, and keeps the branches. -/
theorem openLine_ok {token : Token} {scene : Scene} {line : String}
    (h : (t.openLine token scene line).result = .ok (j, d, branches)) :
    Instruction.parse line = .ok j ∧
      ((∃ r, d = .finished r) ∨ t.demand j = .ok d ∧ branches = t.branches) := by
  obtain ⟨hp, ho⟩ := openLine_opens h
  generalize (t.openLine token scene line).evaluated = evaluated at ho
  refine ⟨hp, ?_⟩
  cases ho with
  | act hs ha => exact .inr ⟨demand_act.mpr ha, rfl⟩
  | @wait units seconds hs hc hw =>
    have hd : t.demand j = .ok (.wait seconds) := by
      unfold demand
      rw [hc]
      dsimp only
      rw [hw]
      rfl
    exact .inr ⟨hd, rfl⟩
  | _ => exact .inl ⟨_, rfl⟩

/-- What ends as soon as it begins has no effect. -/
theorem openLine_finished {token : Token} {scene : Scene} {line : String} {r : StepResult}
    (h : (t.openLine token scene line).result = .ok (j, .finished r, branches)) :
    r.effective = none := by
  obtain ⟨_, ho⟩ := openLine_opens h
  generalize (t.openLine token scene line).evaluated = evaluated at ho
  cases ho <;> rfl

end Interpreter

end Courier
