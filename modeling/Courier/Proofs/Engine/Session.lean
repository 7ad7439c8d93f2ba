import Courier.Proofs.Engine.Uncancelled

namespace Courier

/-- An engine between two steps of its actions. -/
structure Session where
  performance : Performance
  /-- What the action in progress pauses in. -/
  doing : Option Activity
  /-- How the last action ended. -/
  result : Option (Except Fault Answer)

/-- What can happen while no step is in progress. -/
inductive Happening
  /-- An action begins under a token of its own; an observer may cancel it at one of its calls. -/
  | begin (a : Action) (w : Watch) (stopAt : Option Nat)
  | cancel (reason : Json.Value)
  /-- A pause ends; time has passed. -/
  | wake (w : Watch)
  | reset (pose : Option PoseEntry)
  | subscribe (observer : Nat)
  | unsubscribe (observer : Nat)

/-- Cancellations and the ends of pauses, all that concerns the action in progress. -/
def Happening.IsOwn : Happening → Prop
  | .cancel _ => True
  | .wake _ => True
  | _ => False

/-- The observer whose subscriptions change. -/
def Happening.observer? : Happening → Option Nat
  | .subscribe o => some o
  | .unsubscribe o => some o
  | _ => none

def Happening.isWake : Happening → Bool
  | .wake _ => true
  | _ => false

namespace Performance

def cancel (p : Performance) (reason : Json.Value) : Performance :=
  { p with watch := p.watch.cancel reason }

/-- On a clock of another time, under the same token. -/
def atTime (p : Performance) (w : Watch) : Performance :=
  { p with watch := { w with token := p.watch.token } }

end Performance

namespace Session

def engine (s : Session) : Engine := s.performance.engine

/-- A cancelled pause: an animation shows the committed stance again. -/
def interrupt (p : Performance) (a : Activity) (f : Fault) : Session where
  performance :=
    if a.showsCommitted then p.apply (.publish (.still p.engine.committed)) else p
  doing := none
  result := some (.error f)

/-- Goes into a pause, unless the token is cancelled or there is no time to pause until. -/
def suspend (p : Performance) (seconds : Number) (a : Activity) : Session :=
  match p.watch.token.check with
  | .error f => interrupt p a f
  | .ok () =>
    match seconds.checkPause with
    | .error f => ⟨p, none, some (.error (.number f))⟩
    | .ok () => ⟨p, some a, none⟩

def proceed (p : Performance) (x : Stretch) : Session :=
  match x.next with
  | .pause seconds a => suspend (p.applyAll x.effects) seconds a
  | .done answer => ⟨p.applyAll x.effects, none, some (.ok answer)⟩
  | .failed f => ⟨p.applyAll x.effects, none, some (.error f)⟩

def begin (p : Performance) (a : Action) : Session := proceed p (p.engine.begin a)

/-- Comes out of a pause, after which the token is looked at again. -/
def wake (p : Performance) (a : Activity) : Session :=
  match p.watch.token.check with
  | .error f => interrupt p a f
  | .ok () => proceed p (p.engine.resume a)

/-- An action begins only when none is in progress. -/
def happen (s : Session) : Happening → Session
  | .begin a w stopAt =>
    match s.doing with
    | none => begin { s.performance.refresh with watch := w, stopAt } a
    | some _ => s
  | .cancel reason => { s with performance := s.performance.cancel reason }
  | .wake w =>
    match s.doing with
    | none => s
    | some a => wake (s.performance.atTime w) a
  | .reset pose => { s with performance := (s.performance.reset pose).2 }
  | .subscribe observer =>
    { s with performance.engine := s.performance.engine.subscribe observer }
  | .unsubscribe observer =>
    { s with performance.engine := s.performance.engine.unsubscribe observer }

def after (s : Session) (hs : List Happening) : Session := hs.foldl happen s

@[simp] theorem after_nil (s : Session) : s.after [] = s := rfl

@[simp] theorem after_cons (s : Session) (h : Happening) (hs : List Happening) :
    s.after (h :: hs) = (s.happen h).after hs := rfl

@[simp] theorem doing_reset (s : Session) (pose : Option PoseEntry) :
    (s.happen (.reset pose)).doing = s.doing := rfl

end Session

theorem Token.check_of_cancelled {t : Token} (h : t.isCancelled) :
    ∃ text, t.check = .error (.cancelled text) := by
  obtain ⟨r, hr⟩ := Option.isSome_iff_exists.mp h
  simp [check, hr]

/-- A cancelled token keeps its reason. -/
theorem Token.check_cancel {t : Token} {f : Fault} (h : t.check = .error f)
    (reason : Json.Value) : (t.cancel reason).check = .error f := by
  unfold cancel
  cases hr : t.reason with
  | none =>
    unfold check at h
    rw [hr] at h
    cases h
  | some r => exact h

theorem Token.check_error {t : Token} {f : Fault} (h : t.check = .error f) :
    ∃ text, f = .cancelled text := by
  unfold check at h
  cases hr : t.reason with
  | none => rw [hr] at h; cases h
  | some r =>
    rw [hr] at h
    cases h
    exact ⟨_, rfl⟩

namespace Watch

variable {w : Watch} {seconds : Number}

theorem sleep_cancelled {f : Fault} (ht : w.token.check = .error f) :
    w.sleep seconds = (.error f, w) := by
  simp only [sleep, ht]

/-- A sleep ends in time, or because a timer cancels the token. -/
inductive Ends (w : Watch) : Except Fault Unit × Watch → Prop
  | awake {v : Watch} (h : v.token = w.token) : Ends w (.ok (), v)
  | cancelled {v : Watch} (reason : Json.Value) (h : v.token = w.token.cancel reason) :
    Ends w (v.token.check, v)

theorem sleep_ends (ht : w.token.check = .ok ()) (hp : seconds.checkPause = .ok ()) :
    w.Ends (w.sleep seconds) := by
  have hfire (t : Timer) : w.Ends (w.fire t) :=
    .cancelled (v := { w with
      now := if t.due.lt w.now then w.now else t.due, token := w.token.cancel t.reason })
      t.reason rfl
  unfold sleep
  rw [ht]
  dsimp only
  split
  · unfold yieldOnce
    split
    · exact hfire _
    · exact .awake rfl
  · next hs =>
    obtain ⟨x, hx⟩ := Number.toBinary64_of_pause hs hp
    unfold Watch.after
    rw [timeAfter_eq, hx]
    change w.Ends (w.sleepUntil _)
    unfold sleepUntil
    split
    · split
      · exact hfire _
      · exact .awake rfl
    · exact .awake rfl

end Watch

namespace Performance

theorem follow_cancelled {p : Performance} {seconds : Number} {text : String} {w : Watch}
    (hs : p.watch.sleep seconds = (.error (.cancelled text), w)) (a : Activity) :
    Session.interrupt { p with watch := w } a (.cancelled text) =
      ⟨(p.follow seconds a).2, none, some (p.follow seconds a).1⟩ := by
  rw [follow, hs]
  rfl

end Performance

namespace Session

theorem suspend_cancelled {p : Performance} {f : Fault} (h : p.watch.token.check = .error f)
    (seconds : Number) (a : Activity) : suspend p seconds a = interrupt p a f := by
  unfold suspend
  rw [h]

theorem suspend_untimed {p : Performance} (h : p.watch.token.check = .ok ()) {seconds : Number}
    {f : NumberFault} (hp : seconds.checkPause = .error f) (a : Activity) :
    suspend p seconds a = ⟨p, none, some (.error (.number f))⟩ := by
  unfold suspend
  rw [h]
  dsimp only
  rw [hp]

theorem suspend_ok {p : Performance} (h : p.watch.token.check = .ok ()) {seconds : Number}
    (hp : seconds.checkPause = .ok ()) (a : Activity) :
    suspend p seconds a = ⟨p, some a, none⟩ := by
  unfold suspend
  rw [h]
  dsimp only
  rw [hp]

theorem wake_cancelled {p : Performance} {f : Fault} (h : p.watch.token.check = .error f)
    (a : Activity) : wake p a = interrupt p a f := by
  unfold wake
  rw [h]

/-- After a cancelled pause no action is in progress. -/
theorem doing_cancelled (s : Session) (reason : Json.Value) (w : Watch) :
    (s.after [.cancel reason, .wake w]).doing = none := by
  simp only [after_cons, after_nil, happen]
  cases s.doing with
  | none => rfl
  | some a =>
    obtain ⟨text, hf⟩ := Token.check_of_cancelled
      (Token.isCancelled_cancel s.performance.watch.token reason)
    exact congrArg doing (wake_cancelled (p := (s.performance.cancel reason).atTime w) hf a)

theorem wake_atTime {q : Performance} {w : Watch} (hw : w.token = q.watch.token) (a : Activity) :
    wake (q.atTime w) a = wake { q with watch := w } a := by
  rw [Performance.atTime, ← hw]

/-- A session that comes to the same as something performed in one go. -/
def Runs (s : Session) (r : Except Fault Answer × Performance) : Prop :=
  ∃ hs : List Happening, (∀ h ∈ hs, h.IsOwn) ∧ s.after hs = ⟨r.2, none, some r.1⟩

theorem Runs.own {s : Session} {r : Except Fault Answer × Performance} {h : Happening}
    (hr : (s.happen h).Runs r) (ho : h.IsOwn) : s.Runs r := by
  obtain ⟨hs, hown, hrun⟩ := hr
  refine ⟨h :: hs, ?_, hrun⟩
  intro g hg
  rcases List.mem_cons.mp hg with rfl | hg
  · exact ho
  · exact hown g hg

/-- A pause passes as the clock has it, if what comes after it does. -/
theorem suspend_run {q : Performance} (seconds : Number) (a : Activity)
    (h : ∀ w : Watch, w.token = q.watch.token →
      (proceed { q with watch := w } (q.engine.resume a)).Runs
        (({ q with watch := w } : Performance).proceed (q.engine.resume a))) :
    (suspend q seconds a).Runs (q.follow seconds a) := by
  cases hc : q.watch.token.check with
  | error f =>
    obtain ⟨text, rfl⟩ := Token.check_error hc
    rw [suspend_cancelled hc]
    exact ⟨[], by simp, Performance.follow_cancelled (Watch.sleep_cancelled hc) a⟩
  | ok u =>
    cases hp : seconds.checkPause with
    | error f =>
      rw [suspend_untimed hc hp, Performance.follow_stuck (Watch.sleep_untimed hc hp)]
      exact ⟨[], by simp, rfl⟩
    | ok v =>
      rw [suspend_ok hc hp]
      have he := Watch.sleep_ends hc hp
      generalize hs : q.watch.sleep seconds = r at he
      cases he with
      | @awake w hw =>
        have hwake : wake (q.atTime w) a = proceed { q with watch := w } (q.engine.resume a) := by
          have hok : w.token.check = .ok () := by rw [hw, hc]
          rw [wake_atTime hw, wake]
          dsimp only
          rw [hok]
        refine Runs.own (h := .wake w) ?_ trivial
        change (wake (q.atTime w) a).Runs _
        rw [hwake, Performance.follow_awake hs]
        exact h w hw
      | @cancelled w reason hw =>
        obtain ⟨text, hf⟩ : ∃ text, w.token.check = .error (.cancelled text) := by
          rw [hw]
          exact Token.check_of_cancelled (Token.isCancelled_cancel _ _)
        have hwake : wake ((q.cancel reason).atTime w) a =
            interrupt { q with watch := w } a (.cancelled text) := by
          rw [wake_atTime (q := q.cancel reason) hw, wake]
          dsimp only [Performance.cancel]
          rw [hf]
        rw [hf] at hs
        refine Runs.own (h := .cancel reason) (Runs.own (h := .wake w) ?_ trivial) trivial
        change (wake ((q.cancel reason).atTime w) a).Runs _
        rw [hwake]
        exact ⟨[], by simp, Performance.follow_cancelled hs a⟩

/-- A stretch and all that follows it are performed in one go as in a session that only the clock
disturbs. -/
theorem proceed_run (p : Performance) (x : Stretch) : (proceed p x).Runs (p.proceed x) := by
  -- every pause leaves less to do
  induction hn : x.pauses p.engine.settings using Nat.strong_induction_on generalizing p x with
  | _ n ih =>
    unfold proceed Performance.proceed
    cases hx : x.next with
    | done answer => exact ⟨[], by simp, rfl⟩
    | failed f => exact ⟨[], by simp, rfl⟩
    | pause seconds a =>
      have hm : (p.applyAll x.effects).engine.settings = p.engine.settings :=
        Performance.settings_applyAll p x.effects
      dsimp only
      generalize p.applyAll x.effects = q at hm ⊢
      refine suspend_run seconds a (fun w _ => ih _ ?_ { q with watch := w } _ rfl)
      have hlt := Stretch.pauses_resume_lt (m := p.engine.settings) (w := q.engine.world) hx
        q.engine.committed
      rw [← hm] at hlt
      rw [← hn, ← hm]
      exact hlt

/-- What the engine performs in one go is a session with the cancellations that its clock brings. -/
theorem perform_run (p : Performance) (a : Action) : (begin p a).Runs (p.perform a) := by
  rw [Performance.perform_eq]
  exact proceed_run p _

end Session

end Courier
