import Courier.Engine.Performance
import Courier.Proofs.Engine.Feat

namespace Courier

/-- A clock whose token is not cancelled and will not be. -/
structure Watch.IsClear (w : Watch) : Prop where
  token : w.token = .fresh
  timers : w.timers = []
  ripe : w.ripe = []

theorem Watch.sleep_ok {w : Watch} (h : w.IsClear) {seconds : Number}
    (hp : seconds.checkPause = .ok ()) :
    ∃ time, w.sleep seconds = (.ok (), { w with now := time }) := by
  obtain ⟨now, token, timers, ripe⟩ := w
  obtain ⟨rfl, rfl, rfl⟩ := h
  unfold sleep
  by_cases hs : seconds.le (.int 0)
  · refine ⟨now, ?_⟩
    simp only [Token.check, Token.fresh, hs, if_true]
    rfl
  · obtain ⟨x, hx⟩ := Number.toBinary64_of_pause hs hp
    refine ⟨if now.add x = .nan then now else now.add x, ?_⟩
    have ha : Watch.after ⟨now, .fresh, [], []⟩ seconds =
        .ok (if now.add x = .nan then now else now.add x) := by
      unfold Watch.after
      rw [timeAfter_eq, hx]
      rfl
    have hc : Token.fresh.check = .ok () := rfl
    simp only [hc, hs]
    rw [ha]
    rfl

theorem Watch.sleep_untimed {w : Watch} (ht : w.token.check = .ok ()) {seconds : Number}
    {f : NumberFault} (hp : seconds.checkPause = .error f) :
    w.sleep seconds = (.error (.number f), w) := by
  obtain ⟨hs, hx⟩ := Number.toBinary64_of_untimed hp
  have ha : w.after seconds = .error f := by
    unfold Watch.after
    rw [timeAfter_eq, hx]
    rfl
  unfold sleep
  simp only [ht, hs, ha]
  rfl

namespace Performance

/-- Nothing cancels the action, no observer either. -/
structure IsClear (p : Performance) : Prop where
  watch : p.watch.IsClear
  stopAt : p.stopAt = none

variable {p : Performance}

theorem start_isClear (e : Engine) : (start e).IsClear := ⟨⟨rfl, rfl, rfl⟩, rfl⟩

theorem sight_isClear (h : p.IsClear) (f : Frame) : (p.sight f).IsClear := by
  have hw : (p.sight f).watch = p.watch := by
    simp [sight, h.stopAt]
  exact ⟨by rw [hw]; exact h.watch, h.stopAt⟩

theorem foldl_sight_isClear (h : p.IsClear) (f : Frame) (os : List Nat) :
    (os.foldl (fun p _ => p.sight f) p).IsClear := by
  induction os generalizing p with
  | nil => exact h
  | cons o os ih => exact ih (sight_isClear h f)

theorem apply_isClear (h : p.IsClear) (e : Effect) : (p.apply e).IsClear := by
  have he : ({ p with engine := p.engine.apply e } : Performance).IsClear := ⟨h.watch, h.stopAt⟩
  unfold apply
  cases e with
  | publish f => exact foldl_sight_isClear he f _
  | commit s => exact foldl_sight_isClear he (.still s) _
  | complete => exact ⟨h.watch, h.stopAt⟩
  | remark r => exact ⟨h.watch, h.stopAt⟩

theorem applyAll_isClear (h : p.IsClear) (es : List Effect) : (p.applyAll es).IsClear := by
  induction es generalizing p with
  | nil => exact h
  | cons e es ih => exact ih (apply_isClear h e)

theorem engine_applyAll (p : Performance) (es : List Effect) :
    (p.applyAll es).engine = p.engine.applyAll es := by
  induction es generalizing p with
  | nil => rfl
  | cons e es ih =>
    rw [Engine.applyAll_cons, ← engine_apply]
    exact ih (p.apply e)

/-- From a stretch of an action to its end. -/
def proceed (p : Performance) (s : Stretch) : Except Fault Answer × Performance :=
  match s.next with
  | .pause seconds a => (p.applyAll s.effects).follow seconds a
  | .done a => (.ok a, p.applyAll s.effects)
  | .failed f => (.error f, p.applyAll s.effects)

theorem perform_eq (p : Performance) (a : Action) : p.perform a = p.proceed (p.engine.begin a) := by
  unfold perform proceed
  rfl

theorem follow_awake {seconds : Number} {w : Watch} (hs : p.watch.sleep seconds = (.ok (), w))
    (a : Activity) :
    p.follow seconds a = { p with watch := w }.proceed (p.engine.resume a) := by
  rw [follow, hs]
  unfold proceed
  dsimp only
  split <;> simp_all

theorem follow_stuck {seconds : Number} {f : NumberFault}
    (hs : p.watch.sleep seconds = (.error (.number f), p.watch)) (a : Activity) :
    p.follow seconds a = (.error (.number f), p) := by
  rw [follow, hs]

/-- An action ends as it is told, on a clear clock. -/
structure Concludes (p : Performance) (r : Except Fault Answer × Performance)
    (c : Except Fault Answer × List Effect) : Prop where
  answer : r.1 = c.1
  engine : r.2.engine = p.engine.applyAll c.2
  clear : r.2.IsClear

/-- A pause until some time leads to the next stretch, and leaves less to do. -/
theorem proceed_pause (h : p.IsClear) {s : Stretch} {seconds : Number} {a : Activity}
    (hx : s.next = .pause seconds a) (hp : seconds.checkPause = .ok ()) :
    ∃ q : Performance, q.IsClear ∧ q.engine = p.engine.applyAll s.effects ∧
      q.watch = ((p.applyAll s.effects).watch.sleep seconds).2 ∧
      p.proceed s = q.proceed (q.engine.resume a) ∧
      (q.engine.resume a).pauses q.engine.settings < s.pauses p.engine.settings := by
  have hq := applyAll_isClear h s.effects
  have he := engine_applyAll p s.effects
  obtain ⟨time, hs⟩ := Watch.sleep_ok hq.watch hp
  let q : Performance :=
    { p.applyAll s.effects with watch := { (p.applyAll s.effects).watch with now := time } }
  refine ⟨q, ⟨⟨hq.watch.token, hq.watch.timers, hq.watch.ripe⟩, hq.stopAt⟩, he, by rw [hs], ?_, ?_⟩
  · have hr : p.proceed s = (p.applyAll s.effects).follow seconds a := by
      simp only [proceed, hx]
    rw [hr]
    exact follow_awake hs a
  · have hm : q.engine.settings = p.engine.settings :=
      (congrArg Engine.settings he).trans (Engine.settings_applyAll _ _)
    rw [← hm]
    exact Stretch.pauses_resume_lt hx _

/-- A pause without a time to end at is the end of the action. -/
theorem proceed_stuck (h : p.IsClear) {s : Stretch} {seconds : Number} {a : Activity}
    {f : NumberFault} (hx : s.next = .pause seconds a) (hp : seconds.checkPause = .error f) :
    p.proceed s = (.error (.number f), p.applyAll s.effects) ∧
      (p.applyAll s.effects).watch.sleep seconds =
        (.error (.number f), (p.applyAll s.effects).watch) := by
  have ht : (p.applyAll s.effects).watch.token.check = .ok () := by
    rw [(applyAll_isClear h s.effects).watch.token]
    rfl
  have hs := Watch.sleep_untimed ht hp
  have hr : p.proceed s = (p.applyAll s.effects).follow seconds a := by
    simp only [proceed, hx]
  exact ⟨hr.trans (follow_stuck hs a), hs⟩

theorem proceed_concludes (h : p.IsClear) (s : Stretch) :
    Concludes p (p.proceed s)
      (Action.conclude p.engine.settings p.engine.world p.engine.committed s) := by
  have hq := applyAll_isClear h s.effects
  have he := engine_applyAll p s.effects
  -- every pause leaves less to do
  induction hn : s.pauses p.engine.settings using Nat.strong_induction_on generalizing p s with
  | _ n ih =>
    cases hx : s.next with
    | done a =>
      have hr : p.proceed s = (.ok a, p.applyAll s.effects) := by simp only [proceed, hx]
      rw [hr, Action.conclude_done hx]
      exact ⟨rfl, he, hq⟩
    | failed f =>
      have hr : p.proceed s = (.error f, p.applyAll s.effects) := by simp only [proceed, hx]
      rw [hr, Action.conclude_failed hx]
      exact ⟨rfl, he, hq⟩
    | pause seconds a =>
      cases hp : seconds.checkPause with
      | error f =>
        rw [(proceed_stuck h hx hp).1, Action.conclude_stuck hx hp]
        exact ⟨rfl, he, hq⟩
      | ok u =>
        obtain ⟨q, hqc, hqe, _, hr, hlt⟩ := proceed_pause h hx hp
        have hi := ih _ (hn ▸ hlt) hqc (q.engine.resume a) (applyAll_isClear hqc _)
          (engine_applyAll q _) rfl
        rw [hr, Action.conclude_pause hx hp]
        refine ⟨?_, ?_, hi.clear⟩
        · have ha := hi.answer
          rw [hqe] at ha ⊢
          simpa [Engine.resume] using ha
        · have ha := hi.engine
          rw [hqe] at ha ⊢
          simpa [Engine.resume, Engine.applyAll_append] using ha

theorem perform_concludes (h : p.IsClear) (a : Action) :
    Concludes p (p.perform a)
      (a.whole p.engine.settings p.engine.world p.engine.committed) := by
  rw [perform_eq]
  exact proceed_concludes h _

/-- With pauses that can all be begun every action comes to its feat. -/
theorem perform_ok (h : p.IsClear) (hm : p.engine.settings.IsPaced) (a : Action) :
    ∃ q, p.perform a = (.ok (a.feat p.engine.world p.engine.committed).answer, q) ∧ q.IsClear ∧
      q.engine.settings = p.engine.settings := by
  have hc := perform_concludes h a
  have hf := Action.whole_achieves (w := p.engine.world) hm p.engine.committed a
  refine ⟨(p.perform a).2, ?_, hc.clear, ?_⟩
  · rw [← hf.1, ← hc.answer]
  · rw [hc.engine, Engine.settings_applyAll]

end Performance

end Courier
