import Mathlib.Logic.Basic
import Courier.Engine.Performance

namespace Courier

/-- Whether there is a time to pause until, which only a pause with a length needs. It may be
infinitely far off: such a pause begins like any other and can be interrupted, but it never ends by
itself (`Number.Passes`), and a clock that jumps to it stands at infinity from then on. -/
def Number.checkPause (seconds : Number) : Except NumberFault Unit :=
  if seconds.le (.int 0) then .ok () else do
    let _ ← seconds.toBinary64
    return ()

namespace Number

variable {seconds : Number}

theorem toBinary64_of_pause (hs : ¬seconds.le (.int 0)) (hp : seconds.checkPause = .ok ()) :
    ∃ x, seconds.toBinary64 = .ok x := by
  unfold checkPause at hp
  rw [if_neg hs] at hp
  cases hx : seconds.toBinary64 with
  | ok x => exact ⟨x, rfl⟩
  | error f => rw [hx] at hp; cases hp

theorem toBinary64_of_untimed {f : NumberFault} (hp : seconds.checkPause = .error f) :
    ¬seconds.le (.int 0) ∧ seconds.toBinary64 = .error f := by
  unfold checkPause at hp
  by_cases hs : seconds.le (.int 0)
  · rw [if_pos hs] at hp
    cases hp
  · rw [if_neg hs] at hp
    refine ⟨hs, ?_⟩
    cases hx : seconds.toBinary64 with
    | ok x => rw [hx] at hp; cases hp
    | error g => rw [hx] at hp; cases hp; rfl

end Number

/-- Whether there is a time some seconds from now depends on the seconds alone. -/
theorem Watch.timeAfter_eq (now next : Binary64) (seconds : Number) :
    Watch.timeAfter now next seconds =
      seconds.toBinary64.map (fun x => if now.add x = .nan then next else now.add x) := by
  unfold timeAfter
  rw [Number.add, Number.promote_float]
  generalize seconds.toBinary64 = r
  cases r <;> rfl

/-- The stance that counts after some effects. -/
def Stance.after (s : Stance) (es : List Effect) : Stance :=
  es.foldl (fun s e => match e with
    | .commit t => t
    | _ => s) s

namespace Stance

@[simp] theorem after_nil (s : Stance) : s.after [] = s := rfl

@[simp] theorem after_append (s : Stance) (es fs : List Effect) :
    s.after (es ++ fs) = (s.after es).after fs := by
  simp [after, List.foldl_append]

@[simp] theorem after_publish (s : Stance) (f : Frame) (es : List Effect) :
    s.after (.publish f :: es) = s.after es := rfl

@[simp] theorem after_commit (s t : Stance) (es : List Effect) :
    s.after (.commit t :: es) = t.after es := rfl

@[simp] theorem after_complete (s : Stance) (es : List Effect) :
    s.after (.complete :: es) = s.after es := rfl

@[simp] theorem after_remark (s : Stance) (r : Remark) (es : List Effect) :
    s.after (.remark r :: es) = s.after es := rfl

end Stance

def Effect.completions (es : List Effect) : Nat :=
  es.countP (fun e => match e with
    | .complete => true
    | _ => false)

namespace Effect

@[simp] theorem completions_nil : completions [] = 0 := rfl

@[simp] theorem completions_append (es fs : List Effect) :
    completions (es ++ fs) = completions es + completions fs := by
  simp [completions]

@[simp] theorem completions_publish (f : Frame) (es : List Effect) :
    completions (.publish f :: es) = completions es := by
  simp [completions]

@[simp] theorem completions_commit (s : Stance) (es : List Effect) :
    completions (.commit s :: es) = completions es := by
  simp [completions]

@[simp] theorem completions_complete (es : List Effect) :
    completions (.complete :: es) = completions es + 1 := by
  simp [completions]

@[simp] theorem completions_remark (r : Remark) (es : List Effect) :
    completions (.remark r :: es) = completions es := by
  simp [completions]

end Effect

/-- The frames among some effects. -/
def Effect.frames (es : List Effect) : List Frame := es.filterMap Engine.frameOf?

namespace Effect

@[simp] theorem frames_nil : frames [] = [] := rfl

@[simp] theorem frames_append (es fs : List Effect) :
    frames (es ++ fs) = frames es ++ frames fs := by
  simp [frames]

@[simp] theorem frames_publish (f : Frame) (es : List Effect) :
    frames (.publish f :: es) = f :: frames es := rfl

@[simp] theorem frames_commit (s : Stance) (es : List Effect) :
    frames (.commit s :: es) = .still s :: frames es := rfl

@[simp] theorem frames_complete (es : List Effect) : frames (.complete :: es) = frames es := rfl

@[simp] theorem frames_remark (r : Remark) (es : List Effect) :
    frames (.remark r :: es) = frames es := rfl

end Effect

namespace Engine

def applyAll (e : Engine) (es : List Effect) : Engine := es.foldl apply e

theorem applyAll_append (e : Engine) (es fs : List Effect) :
    e.applyAll (es ++ fs) = (e.applyAll es).applyAll fs := by
  simp [applyAll, List.foldl_append]

@[simp] theorem applyAll_nil (e : Engine) : e.applyAll [] = e := rfl

@[simp] theorem applyAll_cons (e : Engine) (f : Effect) (es : List Effect) :
    e.applyAll (f :: es) = (e.apply f).applyAll es := rfl

@[simp] theorem world_applyAll (e : Engine) (es : List Effect) :
    (e.applyAll es).world = e.world := by
  induction es generalizing e with
  | nil => rfl
  | cons f es ih => exact (ih _).trans (by cases f <;> rfl)

@[simp] theorem settings_applyAll (e : Engine) (es : List Effect) :
    (e.applyAll es).settings = e.settings := by
  induction es generalizing e with
  | nil => rfl
  | cons f es ih => exact (ih _).trans (by cases f <;> rfl)

@[simp] theorem committed_applyAll (e : Engine) (es : List Effect) :
    (e.applyAll es).committed = e.committed.after es := by
  induction es generalizing e with
  | nil => rfl
  | cons f es ih => rw [applyAll_cons, ih]; cases f <;> rfl

@[simp] theorem completed_applyAll (e : Engine) (es : List Effect) :
    (e.applyAll es).completed = e.completed + Effect.completions es := by
  induction es generalizing e with
  | nil => rfl
  | cons f es ih => rw [applyAll_cons, ih]; cases f <;> simp [apply]; omega

@[simp] theorem listeners_applyAll (e : Engine) (es : List Effect) :
    (e.applyAll es).listeners = e.listeners.map (· + Effect.completions es) := by
  induction es generalizing e with
  | nil => simp
  | cons f es ih =>
    rw [applyAll_cons, ih]
    cases f <;> simp [apply]
    intro n _
    omega

end Engine

/-- A bound on the pauses of a stretch and of all that follow it. -/
def Stretch.pauses (m : MotionSettings) (s : Stretch) : Nat :=
  match s.next with
  | .pause _ a => Action.rest m a + 1
  | _ => 0

theorem Stretch.pauses_resume_lt {m : MotionSettings} {w : World} {x : Stretch} {seconds : Number}
    {a : Activity} (h : x.next = .pause seconds a) (s : Stance) :
    (Action.resume m w s a).pauses m < x.pauses m := by
  simp only [pauses, h]
  split
  · next hn => exact Nat.succ_lt_succ (Action.rest_resume_lt hn)
  · exact Nat.succ_pos _

namespace Action

/-- The answer of an action and its effects, from one of its stretches on, when nothing cancels
it; `s` is the stance that counts before the stretch. -/
def conclude (m : MotionSettings) (w : World) (s : Stance) (x : Stretch) :
    Except Fault Answer × List Effect :=
  match _h : x.next with
  | .done a => (.ok a, x.effects)
  | .failed f => (.error f, x.effects)
  | .pause seconds a =>
    match seconds.checkPause with
    | .error f => (.error (.number f), x.effects)
    | .ok () =>
      let t := s.after x.effects
      let r := conclude m w t (resume m w t a)
      (r.1, x.effects ++ r.2)
termination_by x.pauses m
decreasing_by exact Stretch.pauses_resume_lt _h _

variable {m : MotionSettings} {w : World} {s : Stance} {x : Stretch}

theorem conclude_done {a : Answer} (h : x.next = .done a) :
    conclude m w s x = (.ok a, x.effects) := by
  rw [conclude]; split <;> simp_all

theorem conclude_failed {f : Fault} (h : x.next = .failed f) :
    conclude m w s x = (.error f, x.effects) := by
  rw [conclude]; split <;> simp_all

theorem conclude_stuck {seconds : Number} {a : Activity} {f : NumberFault}
    (h : x.next = .pause seconds a) (hp : seconds.checkPause = .error f) :
    conclude m w s x = (.error (.number f), x.effects) := by
  rw [conclude]; split <;> simp_all

theorem conclude_pause {seconds : Number} {a : Activity} (h : x.next = .pause seconds a)
    (hp : seconds.checkPause = .ok ()) :
    conclude m w s x =
      ((conclude m w (s.after x.effects) (resume m w (s.after x.effects) a)).1,
        x.effects ++ (conclude m w (s.after x.effects) (resume m w (s.after x.effects) a)).2) := by
  rw [conclude]; split <;> simp_all

theorem conclude_after (es : List Effect) :
    conclude m w s (.after es x) =
      ((conclude m w (s.after es) x).1, es ++ (conclude m w (s.after es) x).2) := by
  have he : (Stretch.after es x).effects = es ++ x.effects := rfl
  cases h : x.next with
  | done a =>
    rw [conclude_done (x := .after es x) (a := a) h, conclude_done h, he]
  | failed f =>
    rw [conclude_failed (x := .after es x) (f := f) h, conclude_failed h, he]
  | pause seconds a =>
    cases hp : seconds.checkPause with
    | error f =>
      rw [conclude_stuck (x := .after es x) (a := a) h hp, conclude_stuck h hp, he]
    | ok u =>
      cases u
      rw [conclude_pause (x := .after es x) (a := a) h hp, conclude_pause h hp, he]
      simp

/-- An action from its beginning to its end. -/
def whole (m : MotionSettings) (w : World) (s : Stance) (a : Action) :
    Except Fault Answer × List Effect :=
  conclude m w s (a.begin m w s)

end Action

end Courier
