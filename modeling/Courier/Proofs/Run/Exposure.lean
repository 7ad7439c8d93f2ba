import Courier.Proofs.Run.Replay

namespace Courier

/-- How many frames an action shows that comes to an answer, if a unit move or a turn has `n`. -/
def Answer.exposures (n : Nat) : Answer → Nat
  | .moved cells => cells*(n+1)
  | .turned => n+1
  | .handled true => max 4 (n/2) + 2
  | .handled false => 0

/-- How many poses an instruction has published, as its result tells it. -/
def StepResult.exposures (n : Nat) (r : StepResult) : Int :=
  if r.skipped then 0
  else
    match r.instruction.command with
    | .moveForward _ => r.moved.getD 0 * (n+1)
    | .moveBackward _ => r.moved.getD 0 * (n+1)
    | .turnLeft => n+1
    | .turnRight => n+1
    | .pickup => if r.effective = some true then (max 4 (n/2) + 2 : Nat) else 0
    | .dropoff => if r.effective = some true then (max 4 (n/2) + 2 : Nat) else 0
    | _ => 0

/-- An agent that is shown nothing is not moved. -/
theorem Stance.after_of_unseen {es : List Effect} (h : Effect.frames es = []) (s : Stance) :
    s.after es = s := by
  induction es with
  | nil => rfl
  | cons e es ih =>
    cases e with
    | publish f => cases h
    | commit t => cases h
    | complete => exact ih h
    | remark r => exact ih h

namespace Action

variable {m : MotionSettings} {w : World} {n : Nat}

theorem frames_framesFrom (frame : Nat → Frame) (k n : Nat) :
    Effect.frames (framesFrom frame k n) = (List.range' k (n+1-k)).map frame := by
  unfold framesFrom
  induction List.range' k (n+1-k) with
  | nil => rfl
  | cons i is ih => simpa using ih

/-- As many frames as the answer tells of, and none if there is no answer. -/
def Shows (n : Nat) (r : Except Fault Answer × List Effect) : Prop :=
  match r.1 with
  | .ok answer => (Effect.frames r.2).length = answer.exposures n
  | .error _ => Effect.frames r.2 = []

theorem length_framesFrom (frame : Nat → Frame) (n : Nat) :
    (Effect.frames (framesFrom frame 1 n)).length = n := by
  simp [frames_framesFrom]

theorem shows_failed (n : Nat) (s : Stance) (f : Fault) :
    Shows n (conclude m w s ⟨[], .failed f⟩) := by
  rw [conclude_failed (f := f) rfl]
  rfl

/-- Each cell that a trek passes is shown by a whole animation and the commit after it. -/
theorem frames_stride (hm : m.IsSettling) (hn : m.frames = .int n) {interval : Number}
    (hi : m.frameInterval = .ok interval) (s : Stance) (t : Trek) :
    (Effect.frames (conclude m w s (stride m w s t)).2).length =
      (w.stroll t.sign t.left s).1*(n+1) := by
  obtain ⟨backward, left, moved⟩ := t
  induction left generalizing s moved with
  | zero =>
    have hd : stride m w s ⟨backward, 0, moved⟩ = .done (.moved moved) := rfl
    rw [hd, conclude_done (a := .moved moved) rfl]
    simp [World.stroll, Stretch.done]
  | succ left ih =>
    by_cases he : w.canEnter (s.ahead (Trek.sign ⟨backward, left+1, moved⟩))
    · let u : Stance := { s with cell := s.ahead (Trek.sign ⟨backward, left+1, moved⟩) }
      have hrest : _ = (w.stroll (Trek.sign ⟨backward, left+1, moved⟩) left u).1*(n+1) :=
        ih u (moved+1)
      have hw : (w.stroll (Trek.sign ⟨backward, left+1, moved⟩) (left+1) s).1 =
          (w.stroll (Trek.sign ⟨backward, left+1, moved⟩) left u).1+1 := by
        simp [World.stroll, he, u]
      rw [conclude_stride_free hm hi (u := u) rfl rfl he, hw]
      simp only [Effect.frames_append, Effect.frames_commit, List.length_append, List.length_cons,
        length_framesFrom, glideLength_eq hn, hrest]
      ring
    · have hstride : stride m w s ⟨backward, left+1, moved⟩ =
          ⟨[.remark (.blocked (s.ahead (Trek.sign ⟨backward, left+1, moved⟩)) s.heading)],
            .done (.moved moved)⟩ := stride_blocked rfl he
      rw [hstride, conclude_done (a := .moved moved) rfl]
      simp [World.stroll, he]

theorem shows_move (hm : m.IsSettling) (hn : m.frames = .int n) (s : Stance) (backward : Bool)
    (steps : Int) : Shows n (whole m w s (.move backward steps)) := by
  let t : Trek := ⟨backward, (max 1 steps).toNat, 0⟩
  change Shows n (conclude m w s (stride m w s t))
  cases hi : m.frameInterval with
  | ok interval =>
    have hframes := frames_stride (w := w) hm hn hi s t
    obtain ⟨hanswer, _, _⟩ := conclude_stride (w := w) hm hi s t
    unfold Shows
    rw [hanswer]
    simpa [Answer.exposures, t] using hframes
  | error f =>
    obtain ⟨left, hleft⟩ : ∃ left, (max 1 steps).toNat = left+1 :=
      ⟨(max 1 steps).toNat - 1, by omega⟩
    by_cases he : w.canEnter (s.ahead t.sign)
    · rw [stride_free hleft he, glide_untimed hm.frames hi]
      exact shows_failed n s _
    · rw [stride_blocked hleft he, conclude_done (a := .moved 0) rfl]
      simp [Shows, Answer.exposures, t]

theorem shows_turn (hm : m.IsCounted) (hn : m.frames = .int n) (s : Stance) (left : Bool) :
    Shows n (whole m w s (.turn left)) := by
  let t : Stance := { s with heading := s.heading.turned (if left then -1 else 1) }
  change Shows n (conclude m w s (glide m s t none))
  cases hi : m.frameInterval with
  | ok interval =>
    have hl : conclude m w t (landing m none) = (.ok .turned, []) := conclude_done rfl
    rw [conclude_glide hm hi, hl]
    simp [Shows, Answer.exposures, length_framesFrom, glideLength_eq hn]
  | error f =>
    rw [glide_untimed hm hi]
    exact shows_failed n s _

/-- Handling the cargo is shown by both halves of a squash, the upright agent and the commit. -/
theorem shows_squash (hm : m.IsCounted) (hn : m.frames = .int n) (s : Stance) (taking : Bool) :
    Shows n (conclude m w s (squash m s taking)) := by
  cases hi : m.squashInterval with
  | ok interval =>
    rw [conclude_squash hm hi]
    cases taking <;>
      simp [Shows, Answer.exposures, handling, length_framesFrom, squashLength_eq hn]
  | error f =>
    rw [squash_untimed hi]
    exact shows_failed n s _

theorem shows_missed (s : Stance) {es : List Effect} (he : Effect.frames es = []) :
    Shows n (conclude m w s ⟨es, .done (.handled false)⟩) := by
  rw [conclude_done (a := .handled false) rfl]
  simp [Shows, Answer.exposures, he]

theorem begin_pickup (m : MotionSettings) (w : World) (s : Stance) :
    begin m w s .pickup = squash m s true ∨
      ∃ es, Effect.frames es = [] ∧ begin m w s .pickup = ⟨es, .done (.handled false)⟩ := by
  by_cases hc : s.isCarrying
  · exact .inr ⟨[], rfl, by simp [begin, hc, Stretch.done]⟩
  · by_cases hb : w.isBeside s.cell .pickup
    · exact .inl (by simp [begin, hc, hb])
    · exact .inr ⟨[.remark (.nothingToTake s.cell)], rfl, by simp [begin, hc, hb]⟩

theorem begin_dropoff (m : MotionSettings) (w : World) (s : Stance) :
    begin m w s .dropoff = squash m s false ∨
      ∃ es, Effect.frames es = [] ∧ begin m w s .dropoff = ⟨es, .done (.handled false)⟩ := by
  by_cases hc : s.isCarrying
  · by_cases hb : w.isBeside s.cell .dropoff
    · exact .inl (by simp [begin, hc, hb])
    · exact .inr ⟨[.remark (.nowhereToDeliver s.cell)], rfl, by simp [begin, hc, hb]⟩
  · exact .inr ⟨[], rfl, by simp [begin, hc, Stretch.done]⟩

/-- An action that nothing disturbs shows as many frames as its answer tells of. -/
theorem whole_shows (hm : m.IsSettling) (hn : m.frames = .int n) (s : Stance) (a : Action) :
    Shows n (a.whole m w s) := by
  cases a with
  | move backward steps => exact shows_move hm hn s backward steps
  | turn left => exact shows_turn hm.frames hn s left
  | pickup =>
    unfold whole
    rcases begin_pickup m w s with hb | ⟨es, he, hb⟩
    · rw [hb]
      exact shows_squash hm.frames hn s true
    · rw [hb]
      exact shows_missed s he
  | dropoff =>
    unfold whole
    rcases begin_dropoff m w s with hb | ⟨es, he, hb⟩
    · rw [hb]
      exact shows_squash hm.frames hn s false
    · rw [hb]
      exact shows_missed s he

end Action

namespace StepResult

variable {w : World} {s : Stance} {i : Instruction} {a : Action} {n : Nat}

/-- A result that no action stands behind tells of no pose. -/
theorem IsIdle.exposures_eq {r : StepResult} (h : r.IsIdle) : r.exposures n = 0 := by
  unfold exposures
  rcases h.still with hk | hc
  · rw [if_pos hk]
  · split
    · rfl
    · cases hr : r.instruction.command <;> simp [hr, Command.action?] at hc <;> rfl

/-- The result of an action tells of as many poses as its answer. -/
theorem exposures_ofAnswer (ha : i.command.action? = some a) :
    (ofAnswer i (a.feat w s).answer).exposures n = (a.feat w s).answer.exposures n := by
  cases hc : i.command <;> rw [hc] at ha <;> cases ha
  case moveForward k => simp [exposures, ofAnswer, plain, Action.feat, Answer.exposures, hc]
  case moveBackward k => simp [exposures, ofAnswer, plain, Action.feat, Answer.exposures, hc]
  case turnLeft => simp [exposures, ofAnswer, plain, Action.feat, Answer.exposures, hc]
  case turnRight => simp [exposures, ofAnswer, plain, Action.feat, Answer.exposures, hc]
  case pickup =>
    unfold Action.feat
    dsimp only
    split <;> simp [exposures, ofAnswer, plain, Answer.exposures, hc]
  case dropoff =>
    unfold Action.feat
    dsimp only
    split <;> simp [exposures, ofAnswer, plain, Answer.exposures, hc]

end StepResult

/-- Effects whose frames some results tell the number of. -/
def Counts (n : Nat) (_ : Stance) (es : List Effect) (rs : List StepResult) : Prop :=
  ((Effect.frames es).length : Int) = (rs.map (StepResult.exposures n)).sum

section Run

variable {w : World} {m : MotionSettings} {e : Engine} {n : Nat}

theorem Course.counts_act {c : Course} (hm : e.settings.IsSettling)
    (hn : e.settings.frames = .int n) {i : Instruction} {a : Action}
    (ha : i.command.action? = some a)
    (hr : c.result = (a.whole e.settings e.world e.committed).1.map (.ofAnswer i))
    (he : c.effects = (a.whole e.settings e.world e.committed).2) :
    Counts n e.committed c.effects c.logged := by
  have hshows := Action.whole_shows (w := e.world) hm hn e.committed a
  unfold Counts logged
  unfold Action.Shows at hshows
  rw [hr, he]
  rcases Action.isWhole (w := e.world) hm e.committed a with ⟨hanswer, _, _⟩ | ⟨_, ⟨f, hf⟩, _, _⟩
  · rw [hanswer] at hshows ⊢
    have hlog := StepResult.exposures_ofAnswer (w := e.world) (s := e.committed) (n := n) ha
    rw [hshows, ← hlog]
    exact List.sum_singleton.symm
  · rw [hf] at hshows ⊢
    rw [hshows]
    rfl

/-- A line publishes what its result tells of, and nothing if it fails. -/
theorem counts_chronicle (hm : m.IsSettling) (hn : m.frames = .int n) (w : World) :
    Chronicle m w (Counts n) where
  nil _ := rfl
  append h g := by
    unfold Counts at h g ⊢
    rw [Effect.frames_append, List.length_append, Nat.cast_add, h, g, List.map_append,
      List.sum_append]
  line {c e} hem _ hc := by
    cases hc with
    | refused hr he =>
      rw [Course.logged, hr, he]
      rfl
    | idle hr he hi =>
      rw [Course.logged, hr, he]
      exact (List.sum_singleton.trans hi.exposures_eq).symm
    | act ha hr he => exact Course.counts_act (by rwa [hem]) (by rwa [hem]) ha hr he

end Run

section Outcome

variable {w : World} {pose : Option PoseEntry} {m : MotionSettings} {n : Nat}

theorem Outcome.length_poses (o : Outcome) :
    o.poses.length = (o.frames.map (·.2)).length := by
  simp [poses]

/-- The results of a run tell how many poses it has published when it ends: a unit move or a turn
one for each frame and one at its end, a squash one for each frame of its two halves and two at its
end, and nothing else any. That the run ends is not said here, since its pauses may be infinite. -/
theorem Outcome.poses_counted (hm : m.IsSettling) (hn : m.frames = .int n) {wait : WaitSettings}
    {lines : List Line} {o : Outcome} (h : ofRun lines w pose m wait = .ok o) :
    (o.queue.status = .idle ∨ o.queue.status = .error) ∧
      (o.poses.length : Int) = (o.results.map (StepResult.exposures n)).sum := by
  obtain ⟨s, e, _, he, rfl⟩ := exists_engine h
  have hset : e.settings = m := by rw [he]
  subst hset
  obtain ⟨es, _, hframes, hcount⟩ := (counts_chronicle hm hn e.world).ofEngine wait lines
  refine ⟨status_ofEngine e wait lines, ?_⟩
  rw [length_poses, hframes]
  exact hcount

theorem Outcome.poses_counted_corridor :
    MotionSettings.standard.IsSettling ∧
      ∃ o, ofRun [.text "MOVE_FORWARD 3", .text "IF IS_WALL_AHEAD", .text "TURN_LEFT",
          .text "END_IF", .text "PICKUP"] Engine.corridor.world none .standard .standard = .ok o ∧
        (o.poses.length : Int) = (o.results.map (StepResult.exposures 20)).sum := by
  have hm : MotionSettings.standard.IsSettling :=
    MotionSettings.isSettling_of_floats ⟨20, by decide, rfl⟩ rfl rfl
  have hstart : Engine.startStance Engine.corridor.world none = .ok (.start 1) := rfl
  obtain ⟨e, _, ho⟩ := ofRun_of_start hstart .standard .standard [.text "MOVE_FORWARD 3",
    .text "IF IS_WALL_AHEAD", .text "TURN_LEFT", .text "END_IF", .text "PICKUP"]
  obtain ⟨_, hcount⟩ := poses_counted hm (n := 20) rfl ho
  exact ⟨hm, _, ho, hcount⟩

/-- A step after which the agent cannot pause is shown, though the log does not tell of it. -/
theorem Outcome.poses_counted_adrift :
    ∃ o, ofRun [.text "MOVE_FORWARD 1"] Engine.corridor.world none
        { MotionSettings.instant with minSettle := .int (10^309) } .standard = .ok o ∧
      o.queue.status = .error ∧ MotionSettings.instant.frames = .int 1 ∧
      (o.poses.length : Int) ≠ (o.results.map (StepResult.exposures 1)).sum := by
  let m : MotionSettings := { MotionSettings.instant with minSettle := .int (10^309) }
  let e : Engine := { Engine.corridor with settings := m }
  obtain ⟨⟨interval, hinterval⟩, hsettle, hpause⟩ := MotionSettings.instant_restless
  obtain ⟨hstatus, hresults, hfinal⟩ := ofEngine_adrift (e := e) ⟨1, Nat.one_pos, rfl⟩ hinterval
    hsettle hpause (by rfl) .standard
  have hany : Chronicle e.settings e.world (fun _ _ _ => True) :=
    ⟨fun _ => trivial, fun _ _ => trivial, fun _ _ _ => trivial⟩
  obtain ⟨es, hes, hframes, _⟩ := hany.ofEngine .standard [.text "MOVE_FORWARD 1"]
  refine ⟨.ofEngine e .standard [.text "MOVE_FORWARD 1"], rfl, hstatus, rfl, ?_⟩
  rw [length_poses, hframes, hresults]
  intro hlength
  have hzero : ((Effect.frames es).length : Int) = 0 := hlength
  have hunseen : Effect.frames es = [] := by
    apply List.eq_nil_of_length_eq_zero
    exact_mod_cast hzero
  rw [hfinal, Stance.after_of_unseen hunseen] at hes
  have hcell : e.committed.ahead 1 = e.committed.cell := congrArg Stance.cell hes
  exact absurd hcell (by decide)

end Outcome

end Courier
