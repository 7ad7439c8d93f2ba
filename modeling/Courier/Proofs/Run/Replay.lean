import Courier.Proofs.Engine.Feat
import Courier.Proofs.Engine.Handling
import Courier.Proofs.Run.Chronicle

namespace Courier

/-- The stance after an instruction, as its result tells it. -/
def StepResult.replay (s : Stance) (r : StepResult) : Stance :=
  if r.skipped then s
  else
    match r.instruction.command with
    | .moveForward _ => { s with cell := s.ahead (r.moved.getD 0) }
    | .moveBackward _ => { s with cell := s.ahead (-r.moved.getD 0) }
    | .turnLeft => { s with heading := s.heading.turned (-1) }
    | .turnRight => { s with heading := s.heading.turned 1 }
    | _ =>
      match r.handling? with
      | some .taken => { s with cargo := .bool true }
      | some .delivered => { s with cargo := .bool false }
      | none => s

/-- The deliveries among some results. -/
def StepResult.deliveries (rs : List StepResult) : Nat :=
  (rs.filterMap handling?).count .delivered

/-- Effects that results tell of, from a stance on. -/
structure Replays (s : Stance) (es : List Effect) (rs : List StepResult) : Prop where
  stance : s.after es = rs.foldl StepResult.replay s
  completions : Effect.completions es = StepResult.deliveries rs

section Replays

variable {s : Stance} {es fs : List Effect} {rs qs : List StepResult}

theorem Replays.nothing (hs : s.after es = s) (hc : Effect.completions es = 0) :
    Replays s es [] := ⟨hs, hc⟩

theorem Replays.append (h : Replays s es rs) (g : Replays (s.after es) fs qs) :
    Replays s (es ++ fs) (rs ++ qs) where
  stance := by
    rw [Stance.after_append, g.stance, h.stance, List.foldl_append]
  completions := by
    have hd : StepResult.deliveries (rs ++ qs) =
        StepResult.deliveries rs + StepResult.deliveries qs := by
      simp [StepResult.deliveries, List.filterMap_append]
    rw [Effect.completions_append, h.completions, g.completions, hd]

/-- A result that no action stands behind changes nothing when it is replayed. -/
theorem StepResult.IsIdle.replay_eq {r : StepResult} (h : r.IsIdle) (s : Stance) :
    r.replay s = s := by
  have hn := handling?_of_ineffective (r := r) (by simp [h.effective])
  unfold replay
  rcases h.still with hk | hc
  · rw [if_pos hk]
  · split
    · rfl
    · cases hr : r.instruction.command <;> simp [hr, Command.action?] at hc <;> simp [hn]

theorem Replays.idle {r : StepResult} (h : r.IsIdle) : Replays s [] [r] where
  stance := (h.replay_eq s).symm
  completions := by
    simp [StepResult.deliveries, StepResult.handling?_of_ineffective, h.effective]

end Replays

namespace StepResult

variable {s : Stance} {i : Instruction} {r : StepResult} {h : Handling}

theorem deliveries_none (hr : r.handling? = none) : deliveries [r] = 0 := by
  simp [deliveries, hr]

theorem deliveries_some (hr : r.handling? = some h) :
    deliveries [r] = if h = .delivered then 1 else 0 := by
  cases h <;> simp [deliveries, hr]

theorem replay_moveForward {n : Nat} (hc : i.command = .moveForward n) (cells : Nat) :
    (ofAnswer i (.moved cells)).replay s = { s with cell := s.ahead cells } := by
  simp [replay, ofAnswer, plain, hc]

theorem replay_moveBackward {n : Nat} (hc : i.command = .moveBackward n) (cells : Nat) :
    (ofAnswer i (.moved cells)).replay s = { s with cell := s.ahead (-cells) } := by
  simp [replay, ofAnswer, plain, hc]

theorem replay_handled (hc : i.command = h.command) :
    (ofAnswer i (.handled true)).replay s =
      { s with cargo := .bool (decide (h = .taken)) } := by
  cases h <;> simp only [Handling.command] at hc <;>
    simp [replay, handling?, ofAnswer, plain, hc]

theorem replay_missed (hc : i.command = h.command) :
    (ofAnswer i (.handled false)).replay s = s := by
  cases h <;> simp only [Handling.command] at hc <;>
    simp [replay, handling?, ofAnswer, plain, hc]

end StepResult

section Act

variable {m : MotionSettings} {w : World} {s : Stance} {i : Instruction} {a : Action}

open StepResult

/-- The answer of an action tells its feat. -/
theorem replay_feat (ha : i.command.action? = some a) :
    (ofAnswer i (a.feat w s).answer).replay s = (a.feat w s).stance ∧
      deliveries [ofAnswer i (a.feat w s).answer] = (a.feat w s).completions := by
  have hmissed := deliveries_none (handling?_missed i)
  cases hc : i.command with
  | moveForward n =>
    rw [hc] at ha
    cases ha
    refine ⟨?_, deliveries_none (handling?_moved i _)⟩
    have hw := w.stroll_ahead 1 (max 1 (n : Int)).toNat s
    rw [one_mul] at hw
    exact (replay_moveForward hc _).trans hw.symm
  | moveBackward n =>
    rw [hc] at ha
    cases ha
    refine ⟨?_, deliveries_none (handling?_moved i _)⟩
    have hw := w.stroll_ahead (-1) (max 1 (n : Int)).toNat s
    rw [neg_one_mul] at hw
    exact (replay_moveBackward hc _).trans hw.symm
  | turnLeft =>
    rw [hc] at ha
    cases ha
    refine ⟨?_, deliveries_none (handling?_turned i)⟩
    simp [replay, ofAnswer, plain, Action.feat, hc]
  | turnRight =>
    rw [hc] at ha
    cases ha
    refine ⟨?_, deliveries_none (handling?_turned i)⟩
    simp [replay, ofAnswer, plain, Action.feat, hc]
  | pickup =>
    rw [hc] at ha
    cases ha
    have hh : i.command = Handling.command .taken := hc
    unfold Action.feat
    dsimp only
    split
    · exact ⟨replay_handled hh, deliveries_some (handling?_handled hh)⟩
    · exact ⟨replay_missed hh, hmissed⟩
  | dropoff =>
    rw [hc] at ha
    cases ha
    have hh : i.command = Handling.command .delivered := hc
    unfold Action.feat
    dsimp only
    split
    · exact ⟨replay_handled hh, deliveries_some (handling?_handled hh)⟩
    · exact ⟨replay_missed hh, hmissed⟩
  | _ => simp [hc, Command.action?] at ha

end Act

section Run

variable {w : World} {m : MotionSettings} {t : Interpreter} {e : Engine}

open StepResult

/-- A whole action changes the agent as its result tells; one that fails does not change it. -/
theorem Course.replays_act {c : Course} (hm : e.settings.IsSettling) {i : Instruction} {a : Action}
    (ha : i.command.action? = some a)
    (hr : c.result = (a.whole e.settings e.world e.committed).1.map (.ofAnswer i))
    (he : c.effects = (a.whole e.settings e.world e.committed).2) :
    Replays e.committed c.effects c.logged := by
  unfold logged
  rw [hr, he]
  rcases Action.isWhole (w := e.world) hm e.committed a with ⟨hanswer, hstance, hcount⟩ | ⟨_, h⟩
  · obtain ⟨hs, hd⟩ := replay_feat (w := e.world) (s := e.committed) ha
    rw [hanswer]
    exact ⟨hstance.trans hs.symm, hcount.trans hd.symm⟩
  · obtain ⟨⟨f, hf⟩, hs, hc⟩ := h
    rw [hf]
    exact .nothing hs hc

/-- What happens to the agent in a run is what the results tell. -/
theorem replays_chronicle (hm : m.IsSettling) (w : World) : Chronicle m w Replays where
  nil _ := .nothing rfl rfl
  append := .append
  line {c e} hem _ hc := by
    cases hc with
    | refused hr he =>
      rw [Course.logged, hr, he]
      exact .nothing rfl rfl
    | idle hr he hi =>
      rw [Course.logged, hr, he]
      exact .idle hi
    | act ha hr he => exact Course.replays_act (by rwa [hem]) ha hr he

/-- The log grows by results that replay all that happens to the agent. -/
theorem Outlook.ofLines_replays (hm : e.settings.IsSettling) (done : List StepResult)
    (lines : List Line) :
    ∃ es rs, (ofLines t e done lines).engine = e.applyAll es ∧
      (ofLines t e done lines).results = done ++ rs ∧ Replays e.committed es rs := by
  obtain ⟨hengine, rs, hresults, hr⟩ :=
    (replays_chronicle hm e.world).ofLines (t := t) rfl rfl done lines
  exact ⟨_, rs, hengine, hresults, hr⟩

end Run

section Outcome

variable {w : World} {pose : Option PoseEntry} {m : MotionSettings} {wait : WaitSettings}
  {lines : List Line} {o : Outcome}

/-- The results of a run tell all that it did when it ends: replayed from the start they lead to the
stance at the end, and the deliveries among them are the completions of the level. A line that fails
leaves no trace, unless it is the pause after a unit move that fails. That the run ends is not said
here, since its pauses may be infinite. -/
theorem Outcome.log_replays (hm : m.IsSettling) (h : ofRun lines w pose m wait = .ok o) :
    (o.queue.status = .idle ∨ o.queue.status = .error) ∧
      ∃ s, Engine.startStance w pose = .ok s ∧
        o.results.foldl StepResult.replay s = o.final ∧
        StepResult.deliveries o.results = o.queue.engine.completed := by
  obtain ⟨s, e, hs, he, rfl⟩ := exists_engine h
  have hset : e.settings.IsSettling := by
    rw [he]
    exact hm
  have hcommitted : e.committed = s := by rw [he]
  have hcompleted : e.completed = 0 := by rw [he]
  obtain ⟨_, hfinal⟩ := ofEngine_ends e wait lines
  obtain ⟨es, rs, hengine, hresults, hreplay⟩ :=
    Outlook.ofLines_replays (t := (Interpreter.make wait []).reset) hset [] lines
  rw [← hfinal] at hengine hresults
  have hlog : (ofEngine e wait lines).results = rs := hresults
  have hend : (ofEngine e wait lines).queue.engine = e.applyAll es := hengine
  refine ⟨status_ofEngine e wait lines, s, hs, ?_, ?_⟩
  · rw [final, hend, Engine.committed_applyAll, hreplay.stance, hlog, hcommitted]
  · rw [hend, Engine.completed_applyAll, hreplay.completions, hlog, hcompleted, Nat.zero_add]

theorem Outcome.log_replays_corridor :
    MotionSettings.standard.IsSettling ∧
      ∃ o, ofRun [.text "MOVE_FORWARD 3", .text "IF IS_WALL_AHEAD", .text "TURN_LEFT",
          .text "END_IF", .text "PICKUP"] Engine.corridor.world none .standard .standard = .ok o ∧
        o.results.foldl StepResult.replay (.start 1) = o.final ∧
        StepResult.deliveries o.results = o.queue.engine.completed := by
  have hm : MotionSettings.standard.IsSettling :=
    MotionSettings.isSettling_of_floats ⟨20, by decide, rfl⟩ rfl rfl
  have hstart : Engine.startStance Engine.corridor.world none = .ok (.start 1) := rfl
  obtain ⟨e, _, ho⟩ := ofRun_of_start hstart .standard .standard [.text "MOVE_FORWARD 3",
    .text "IF IS_WALL_AHEAD", .text "TURN_LEFT", .text "END_IF", .text "PICKUP"]
  obtain ⟨_, s, hs, hreplay, hcount⟩ := log_replays hm ho
  rw [hstart] at hs
  cases hs
  exact ⟨hm, _, ho, hreplay, hcount⟩

/-- A step after which the agent cannot pause is taken, but its result is not logged. -/
theorem Outcome.ofEngine_adrift {e : Engine} (hm : e.settings.IsCounted)
    {interval seconds : Number} (hi : e.settings.frameInterval = .ok interval)
    (hs : e.settings.settlePause = .ok seconds) {f : NumberFault}
    (hp : seconds.checkPause = .error f) (he : e.world.canEnter (e.committed.ahead 1))
    (wait : WaitSettings) :
    (ofEngine e wait [.text "MOVE_FORWARD 1"]).queue.status = .error ∧
      (ofEngine e wait [.text "MOVE_FORWARD 1"]).results = [] ∧
      (ofEngine e wait [.text "MOVE_FORWARD 1"]).final =
        { e.committed with cell := e.committed.ahead 1 } := by
  have hparse : Instruction.parse (Json.Value.text "MOVE_FORWARD 1").plain =
      .ok ⟨"MOVE_FORWARD 1", .moveForward 1⟩ := by rfl
  obtain ⟨hfault, hstance⟩ := Action.whole_adrift hm hi hs hp he
  have hline := Course.ofLine_act (t := (Interpreter.make wait []).reset) (e := e)
    (a := .move false 1) (by rfl) hparse rfl
  obtain ⟨hstatus, hfinal⟩ := ofEngine_ends e wait [.text "MOVE_FORWARD 1"]
  generalize ofEngine e wait [.text "MOVE_FORWARD 1"] = o at hstatus hfinal ⊢
  rw [Outlook.ofLines, Outlook.ofCourse, hline, hfault] at hfinal
  have hq : o.queue.fault = some (.number f) := congrArg Outlook.fault hfinal
  have hresults : o.results = [] := congrArg Outlook.results hfinal
  have hengine := congrArg (fun x : Outlook => x.engine.committed) hfinal
  rw [hq] at hstatus
  refine ⟨hstatus, hresults, ?_⟩
  refine hengine.trans ?_
  dsimp only [Except.map]
  rw [Engine.committed_applyAll]
  exact hstance

/-- With a whole number beyond binary64 as the least pause after a unit move there is time between
the frames of the move, but none to pause after it. -/
theorem MotionSettings.instant_restless :
    let m : MotionSettings := { MotionSettings.instant with minSettle := .int (10^309) }
    (∃ interval, m.frameInterval = .ok interval) ∧ m.settlePause = .ok (.int (10^309)) ∧
      (Number.int (10^309)).checkPause = .error .outOfRange := by
  intro m
  have hn : Number.toBinary64 (.int (10^309)) = .error .outOfRange :=
    Number.toBinary64_of_infinite (by decide +kernel)
  have hpause : (Number.int (10^309)).checkPause = .error .outOfRange := by
    unfold Number.checkPause
    rw [if_neg (by decide +kernel), hn]
    rfl
  have hdiv (n : Nat) (hn : (Binary64.ofInt n).isFinite = true) :
      m.duration.div (.int n) = .ok ((Binary64.zero false).div (.ofInt n)) := by
    change Number.div (.float (Binary64.zero false)) (.int n) = _
    rw [Number.div_float, Number.toBinary64_of_finite rfl hn]
    rfl
  have hinterval : m.frameInterval =
      .ok (.float ((Binary64.zero false).div (.ofInt (1 : Nat)))) := by
    have hd := hdiv 1 (by decide +kernel)
    unfold MotionSettings.frameInterval
    rw [show m.frames = .int (1 : Nat) from rfl, hd]
    rfl
  have hsettle : m.settlePause = .ok (.int (10^309)) := by
    have hd := hdiv 3 (by decide +kernel)
    have hlt : Number.lt (.int (10^309))
        (.float ((Binary64.zero false).div (.ofInt (3 : Nat)))) = false := by decide +kernel
    unfold MotionSettings.settlePause
    rw [show (Number.int 3) = .int (3 : Nat) from rfl, hd, ok_bind]
    change Except.ok (Number.max (.int (10^309)) _) = _
    rw [Number.max, hlt]
    rfl
  exact ⟨⟨_, hinterval⟩, hsettle, hpause⟩

theorem Outcome.log_replays_adrift :
    ∃ o, ofRun [.text "MOVE_FORWARD 1"] Engine.corridor.world none
        { MotionSettings.instant with minSettle := .int (10^309) } .standard = .ok o ∧
      o.queue.status = .error ∧
      Engine.startStance Engine.corridor.world none = .ok (.start 1) ∧
      o.results.foldl StepResult.replay (.start 1) ≠ o.final := by
  let m : MotionSettings := { MotionSettings.instant with minSettle := .int (10^309) }
  obtain ⟨⟨interval, hinterval⟩, hsettle, hpause⟩ := MotionSettings.instant_restless
  let e : Engine := { Engine.corridor with settings := m }
  obtain ⟨hstatus, hresults, hfinal⟩ := ofEngine_adrift (e := e) ⟨1, Nat.one_pos, rfl⟩ hinterval
    hsettle hpause (by rfl) .standard
  refine ⟨.ofEngine e .standard [.text "MOVE_FORWARD 1"], rfl, hstatus, rfl, ?_⟩
  rw [hresults, hfinal]
  intro heq
  have hcell : Stance.cell (.start 1) = e.committed.ahead 1 := congrArg Stance.cell heq
  exact absurd hcell (by decide)

end Outcome

end Courier
