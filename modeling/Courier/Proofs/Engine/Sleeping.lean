import Courier.Proofs.Engine.Uncancelled

namespace Courier

/-- The watch after some sleeps in a row. -/
def Watch.sleepAll (w : Watch) (seconds : List Number) : Watch :=
  seconds.foldl (fun w s => (w.sleep s).2) w

@[simp] theorem Watch.sleepAll_nil (w : Watch) : w.sleepAll [] = w := rfl

@[simp] theorem Watch.sleepAll_cons (w : Watch) (s : Number) (ss : List Number) :
    w.sleepAll (s :: ss) = (w.sleep s).2.sleepAll ss := rfl

namespace Action

/-- The lengths of the sleeps of an action, from one of its stretches on, when nothing cancels it;
`s` is the stance that counts before the stretch. A sleep without a time to end at is the last
one. -/
def sleeps (m : MotionSettings) (w : World) (s : Stance) (x : Stretch) : List Number :=
  match _h : x.next with
  | .pause seconds a =>
    match seconds.checkPause with
    | .error _ => [seconds]
    | .ok () => seconds :: sleeps m w (s.after x.effects) (resume m w (s.after x.effects) a)
  | _ => []
termination_by x.pauses m
decreasing_by exact Stretch.pauses_resume_lt _h _

variable {m : MotionSettings} {w : World} {s : Stance} {x : Stretch}

theorem sleeps_done {a : Answer} (h : x.next = .done a) : sleeps m w s x = [] := by
  rw [sleeps]; split <;> simp_all

theorem sleeps_failed {f : Fault} (h : x.next = .failed f) : sleeps m w s x = [] := by
  rw [sleeps]; split <;> simp_all

theorem sleeps_stuck {seconds : Number} {a : Activity} {f : NumberFault}
    (h : x.next = .pause seconds a) (hp : seconds.checkPause = .error f) :
    sleeps m w s x = [seconds] := by
  rw [sleeps]; split <;> simp_all

theorem sleeps_pause {seconds : Number} {a : Activity} (h : x.next = .pause seconds a)
    (hp : seconds.checkPause = .ok ()) :
    sleeps m w s x =
      seconds :: sleeps m w (s.after x.effects) (resume m w (s.after x.effects) a) := by
  rw [sleeps]; split <;> simp_all

end Action

namespace Performance

variable {p : Performance}

theorem watch_foldl_sight (h : p.stopAt = none) (f : Frame) (os : List Nat) :
    (os.foldl (fun p _ => p.sight f) p).watch = p.watch := by
  induction os generalizing p with
  | nil => rfl
  | cons o os ih =>
    have hw : (p.sight f).watch = p.watch := by simp [sight, h]
    exact (ih (p := p.sight f) h).trans hw

/-- Effects take no time. -/
theorem watch_applyAll (h : p.IsClear) (es : List Effect) : (p.applyAll es).watch = p.watch := by
  induction es generalizing p with
  | nil => rfl
  | cons e es ih =>
    have hshown (f : Frame) :=
      watch_foldl_sight (p := { p with engine := p.engine.apply e }) h.stopAt f
    have hw : (p.apply e).watch = p.watch := by
      cases e with
      | publish f => exact hshown f _
      | commit s => exact hshown (.still s) _
      | complete => rfl
      | remark r => rfl
    exact (ih (apply_isClear h e)).trans hw

theorem proceed_watch (h : p.IsClear) (s : Stretch) :
    (p.proceed s).2.watch = p.watch.sleepAll
      (Action.sleeps p.engine.settings p.engine.world p.engine.committed s) := by
  have hw := watch_applyAll h s.effects
  -- every pause leaves less to do
  induction hn : s.pauses p.engine.settings using Nat.strong_induction_on generalizing p s with
  | _ n ih =>
    cases hx : s.next with
    | done a =>
      rw [Action.sleeps_done hx, Watch.sleepAll_nil]
      simpa only [proceed, hx] using hw
    | failed f =>
      rw [Action.sleeps_failed hx, Watch.sleepAll_nil]
      simpa only [proceed, hx] using hw
    | pause seconds a =>
      cases hp : seconds.checkPause with
      | error f =>
        obtain ⟨hr, hs⟩ := proceed_stuck h hx hp
        rw [hr, Action.sleeps_stuck hx hp, Watch.sleepAll_cons, ← hw, hs]
        rfl
      | ok u =>
        obtain ⟨q, hqc, hqe, hqw, hr, hlt⟩ := proceed_pause h hx hp
        have hi := ih _ (hn ▸ hlt) hqc (q.engine.resume a) (watch_applyAll hqc _) rfl
        rw [hr, Action.sleeps_pause hx hp, Watch.sleepAll_cons, ← hw, ← hqw]
        rw [hqe] at hi ⊢
        simpa [Engine.resume] using hi

/-- An action that nothing cancels sleeps as it is listed. -/
theorem perform_watch (h : p.IsClear) (a : Action) :
    (p.perform a).2.watch = p.watch.sleepAll (Action.sleeps p.engine.settings p.engine.world
      p.engine.committed (a.begin p.engine.settings p.engine.world p.engine.committed)) := by
  rw [perform_eq]
  exact proceed_watch h _

end Performance

end Courier
