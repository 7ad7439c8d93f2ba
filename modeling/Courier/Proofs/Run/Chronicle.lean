import Courier.Proofs.Run.Verdict

namespace Courier

/-- The results that a line adds to the log. -/
def Course.logged (c : Course) : List StepResult := c.result.toOption.toList

/-- A result that no action stands behind. -/
structure StepResult.IsIdle (r : StepResult) : Prop where
  moved : r.moved = none
  effective : r.effective = none
  still : r.skipped = true ∨ r.instruction.command.action? = none

/-- What a line can come to: it fails before it acts, it is done with, or it takes its action. -/
inductive Course.Amounts (e : Engine) (c : Course) : Prop
  | refused {f : Fault} (hr : c.result = .error f) (he : c.effects = [])
  | idle {r : StepResult} (hr : c.result = .ok r) (he : c.effects = []) (hi : r.IsIdle)
  | act {i : Instruction} {a : Action} (ha : i.command.action? = some a)
    (hr : c.result = (a.whole e.settings e.world e.committed).1.map (.ofAnswer i))
    (he : c.effects = (a.whole e.settings e.world e.committed).2)

theorem Course.ofLine_amounts (t : Interpreter) (e : Engine) (line : Line) :
    (ofLine t e line).Amounts e := by
  unfold ofLine Spell.opening
  generalize hr : t.openLine .fresh (.ofStance e.world e.committed) line.plain = o
  cases hres : o.result with
  | error f => exact .refused rfl rfl
  | ok x =>
    obtain ⟨i, d, branches⟩ := x
    rw [← hr] at hres
    obtain ⟨_, ho⟩ := Interpreter.openLine_opens hres
    generalize (t.openLine .fresh (.ofStance e.world e.committed) line.plain).evaluated = v at ho
    have hplain (hc : i.command.action? = none) : (StepResult.plain i).IsIdle :=
      ⟨rfl, rfl, .inr hc⟩
    cases ho with
    | branch _ hc => exact .idle rfl rfl ⟨rfl, rfl, .inr (by simp [StepResult.plain, hc,
        Command.action?])⟩
    | branchSkipped _ hc => exact .idle rfl rfl ⟨rfl, rfl, .inl rfl⟩
    | endBranch hc => exact .idle rfl rfl (hplain (by rw [hc]; rfl))
    | skipped => exact .idle rfl rfl ⟨rfl, rfl, .inl rfl⟩
    | act _ ha => exact .act ha rfl rfl
    | @wait units seconds _ hc _ =>
      dsimp only [ofOpening]
      cases seconds.checkPause with
      | error f => exact .refused rfl rfl
      | ok u => exact .idle rfl rfl (hplain (by rw [hc]; rfl))

/-- A relation between what happens to the agent, from a stance on, and the results that tell of
it. -/
structure Chronicle (m : MotionSettings) (w : World)
    (R : Stance → List Effect → List StepResult → Prop) : Prop where
  nil (s : Stance) : R s [] []
  append {s : Stance} {es fs : List Effect} {rs qs : List StepResult} (h : R s es rs)
    (g : R (s.after es) fs qs) : R s (es ++ fs) (rs ++ qs)
  line {c : Course} {e : Engine} (hm : e.settings = m) (hw : e.world = w) (hc : c.Amounts e) :
    R e.committed c.effects c.logged

namespace Chronicle

variable {m : MotionSettings} {w : World} {R : Stance → List Effect → List StepResult → Prop}

/-- The effects of some lines are what their results tell of. -/
theorem ofLines (h : Chronicle m w R) {t : Interpreter} {e : Engine} (hm : e.settings = m)
    (hw : e.world = w) (done : List StepResult) (lines : List Line) :
    (Outlook.ofLines t e done lines).engine = e.applyAll (Outlook.effects t e lines) ∧
      ∃ rs, (Outlook.ofLines t e done lines).results = done ++ rs ∧
        R e.committed (Outlook.effects t e lines) rs := by
  induction lines generalizing t e done with
  | nil => exact ⟨rfl, [], (List.append_nil done).symm, h.nil _⟩
  | cons line lines ih =>
    have hline := h.line hm hw (Course.ofLine_amounts t e line)
    rw [Outlook.ofLines, Outlook.ofCourse, Outlook.effects, Course.effectsWith]
    generalize Course.ofLine t e line = c at hline ⊢
    obtain ⟨branches, effects, result⟩ := c
    cases result with
    | error f => exact ⟨rfl, [], (List.append_nil done).symm, hline⟩
    | ok r =>
      obtain ⟨hengine, rs, hresults, hrest⟩ :=
        ih (t := { t with branches }) (e := e.applyAll effects)
          (by rwa [Engine.settings_applyAll]) (by rwa [Engine.world_applyAll]) (done ++ [r])
      rw [Engine.committed_applyAll] at hrest
      refine ⟨?_, r :: rs, ?_, h.append hline hrest⟩
      · exact hengine.trans (Engine.applyAll_append _ _ _).symm
      · simpa using hresults

/-- What happens in a run, from its start to its end, and what it shows. -/
theorem ofEngine {e : Engine} (h : Chronicle e.settings e.world R) (wait : WaitSettings)
    (lines : List Line) :
    ∃ es, (Outcome.ofEngine e wait lines).final = e.committed.after es ∧
      (Outcome.ofEngine e wait lines).frames.map (·.2) = Effect.frames es ∧
      R e.committed es (Outcome.ofEngine e wait lines).results := by
  obtain ⟨_, hfinal⟩ := Outcome.ofEngine_ends e wait lines
  obtain ⟨hengine, rs, hresults, hr⟩ :=
    h.ofLines (t := (Interpreter.make wait []).reset) rfl rfl [] lines
  rw [← hfinal] at hengine hresults
  have hend : (Outcome.ofEngine e wait lines).queue.engine = e.applyAll _ := hengine
  have hlog : (Outcome.ofEngine e wait lines).results = rs := hresults
  refine ⟨_, ?_, Outcome.frames_ofEngine e wait lines, ?_⟩
  · rw [Outcome.final, hend, Engine.committed_applyAll]
  · rwa [hlog]

end Chronicle

end Courier
