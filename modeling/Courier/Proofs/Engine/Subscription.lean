import Courier.Proofs.Engine.Footage

namespace Courier

/-- The calls that a frame brings, each with its observer. -/
def Engine.calls (e : Engine) (f : Frame) : List (Nat × Frame) := e.observers.map (·, f)

/-- What shows a frame shows it to the observers, one after another. -/
theorem Performance.apply_frame (p : Performance) {x : Effect} {f : Frame}
    (hx : Engine.frameOf? x = some f) :
    p.apply x = (p.engine.calls f).foldl (fun q c => q.sight c.2)
      { p with engine := p.engine.apply x } := by
  cases x with
  | publish g =>
    cases hx
    rw [Engine.calls, List.foldl_map]
    rfl
  | commit s =>
    cases hx
    rw [Engine.calls, List.foldl_map]
    rfl
  | complete => cases hx
  | remark r => cases hx

/-- A subscription, and whether the function that came with it was called. -/
structure Subscription where
  observer : Nat
  ended : Bool

/-- A session with the subscriptions made in it, the first one first. -/
structure Audience where
  session : Session
  subscriptions : List Subscription

namespace Audience

inductive Move
  | subscribe (observer : Nat)
  /-- Calls what the subscribe call of this number has returned. -/
  | unsubscribe (number : Nat)
  | other (y : Happening) (hy : y.observer? = none)

/-- The subscribe call whose function a move calls. -/
def Move.number? : Move → Option Nat
  | .unsubscribe k => some k
  | _ => none

def start (e : Engine) : Audience := ⟨.start e, []⟩

def step (a : Audience) : Move → Audience
  | .subscribe o => ⟨a.session.happen (.subscribe o), a.subscriptions ++ [⟨o, false⟩]⟩
  | .unsubscribe k =>
    match a.subscriptions[k]? with
    | none => a
    | some s =>
      ⟨a.session.happen (.unsubscribe s.observer),
        a.subscriptions.set k { s with ended := true }⟩
  | .other y _ => { a with session := a.session.happen y }

def after (a : Audience) (xs : List Move) : Audience := xs.foldl step a

/-- How many subscriptions of an observer have not been ended. -/
def live (a : Audience) (o : Nat) : Nat :=
  a.subscriptions.countP (fun s => s.observer == o && !s.ended)

/-- How often an observer is called with a frame. -/
def called (a : Audience) (o : Nat) (f : Frame) : Nat :=
  (a.session.engine.calls f).countP (·.1 == o)

/-- A move that calls a function of an observer again, while the observer has other
subscriptions. -/
def Strays (a : Audience) (o : Nat) : Move → Prop
  | .unsubscribe k => a.subscriptions[k]? = some ⟨o, true⟩ ∧ 0 < a.live o
  | _ => False

variable {a : Audience} {o : Nat}

theorem called_eq (a : Audience) (o : Nat) (f : Frame) :
    a.called o f = a.session.engine.observers.count o := by
  rw [called, Engine.calls, List.countP_map]
  rfl

theorem after_concat (a : Audience) (xs : List Move) (x : Move) :
    a.after (xs ++ [x]) = (a.after xs).step x := by
  simp [after, List.foldl_append]

theorem live_subscribe (a : Audience) (o b : Nat) :
    (a.step (.subscribe b)).live o = a.live o + if b = o then 1 else 0 := by
  simp [step, live, List.countP_append, List.countP_singleton]

theorem count_subscribe (a : Audience) (o b : Nat) :
    (a.step (.subscribe b)).session.engine.observers.count o =
      a.session.engine.observers.count o + if b = o then 1 else 0 := by
  have hs : (a.step (.subscribe b)).session.engine.observers =
      a.session.engine.observers ++ [b] := rfl
  rw [hs, List.count_append, List.count_singleton]
  simp

theorem count_other (a : Audience) (o : Nat) {y : Happening} (hy : y.observer? = none) :
    (a.step (.other y hy)).session.engine.observers.count o =
      a.session.engine.observers.count o := by
  have hk := Session.kept_happen (φ := Engine.observers)
    (fun e x => by cases x <;> rfl) a.session hy
  change (a.session.happen y).engine.observers.count o = _
  rw [hk]

/-- Calling what a subscribe call has returned takes the observer off the list once, and ends the
subscription if it was live. -/
theorem step_unsubscribe {k : Nat} {s : Subscription} (hk : a.subscriptions[k]? = some s) :
    (a.step (.unsubscribe k)).session.engine.observers =
        a.session.engine.observers.erase s.observer ∧
      (a.step (.unsubscribe k)).live o =
        a.live o - if s.observer = o ∧ s.ended = false then 1 else 0 := by
  have hs : a.step (.unsubscribe k) = ⟨a.session.happen (.unsubscribe s.observer),
      a.subscriptions.set k { s with ended := true }⟩ := by
    simp only [step, hk]
  obtain ⟨hlt, hget⟩ := List.getElem?_eq_some_iff.mp hk
  rw [hs]
  refine ⟨rfl, ?_⟩
  simp only [live]
  rw [List.countP_set hlt, hget]
  simp

/-- A live subscription counts. -/
theorem live_pos {k : Nat} (hk : a.subscriptions[k]? = some ⟨o, false⟩) : 0 < a.live o :=
  List.countP_pos_iff.mpr ⟨_, List.mem_of_getElem? hk, by simp⟩

/-- An observer that is called no more often than it is subscribed stays so, and loses the balance
with a stray call only. -/
theorem step_balance (x : Move) (h : a.session.engine.observers.count o ≤ a.live o) :
    (a.step x).session.engine.observers.count o ≤ (a.step x).live o ∧
      (a.session.engine.observers.count o = a.live o →
        ((a.step x).session.engine.observers.count o = (a.step x).live o ↔ ¬a.Strays o x)) := by
  cases x with
  | subscribe b =>
    rw [count_subscribe, live_subscribe]
    exact ⟨by omega, fun heq => by simp [heq, Strays]⟩
  | other y hy =>
    have hlive : (a.step (.other y hy)).live o = a.live o := rfl
    rw [count_other, hlive]
    exact ⟨h, fun heq => by simpa [Strays] using heq⟩
  | unsubscribe k =>
    cases hk : a.subscriptions[k]? with
    | none =>
      have hs : a.step (.unsubscribe k) = a := by simp only [step, hk]
      rw [hs]
      exact ⟨h, fun heq => by simpa [Strays, hk] using heq⟩
    | some s =>
      obtain ⟨hobservers, hlive⟩ := step_unsubscribe (o := o) hk
      rw [hobservers, hlive]
      obtain ⟨b, ended⟩ := s
      by_cases hb : b = o
      · subst hb
        rw [List.count_erase_self]
        cases ended with
        | false =>
          have hpos := live_pos hk
          simp only [and_self, if_true, Strays, hk]
          exact ⟨by omega, fun heq => by simp [heq]⟩
        | true =>
          -- the list loses an entry that another subscription put there, if there is one
          simp only [Strays, hk, and_false, if_false, Bool.true_eq_false, true_and]
          exact ⟨by omega, fun heq => by omega⟩
      · rw [List.count_erase_of_ne (Ne.symm hb)]
        simp only [Strays, hk, hb, false_and, if_false, Option.some.injEq, Subscription.mk.injEq]
        exact ⟨h, fun heq => by simpa using heq⟩

variable {w : World} {pose : Option PoseEntry} {m : MotionSettings} {e : Engine}

theorem count_le_live (he : e.observers = []) (xs : List Move) (o : Nat) :
    ((start e).after xs).session.engine.observers.count o ≤ ((start e).after xs).live o := by
  induction xs using List.reverseRecOn with
  | nil =>
    change e.observers.count o ≤ 0
    rw [he]
    exact Nat.le_refl 0
  | append_singleton xs x ih =>
    rw [after_concat]
    exact (step_balance x ih).1

/-- Without a stray call the balance is kept. -/
theorem count_eq_live (he : e.observers = []) {xs : List Move}
    (hx : ∀ as x bs, xs = as ++ x :: bs → ¬((start e).after as).Strays o x) :
    ((start e).after xs).session.engine.observers.count o = ((start e).after xs).live o := by
  induction xs using List.reverseRecOn with
  | nil =>
    change e.observers.count o = 0
    rw [he]
    rfl
  | append_singleton xs x ih =>
    have heq := ih (fun as y bs hsplit => hx as y (bs ++ [x]) (by simp [hsplit]))
    rw [after_concat]
    exact ((step_balance x heq.le).2 heq).mpr (hx xs x [] rfl)

/-- A subscription is ended by a call of its own function only. -/
theorem mem_of_ended {xs : List Move} {k : Nat} {s : Subscription}
    (hs : ((start e).after xs).subscriptions[k]? = some s) (hended : s.ended = true) :
    k ∈ xs.filterMap Move.number? := by
  induction xs using List.reverseRecOn generalizing s with
  | nil => cases hs
  | append_singleton xs x ih =>
    rw [after_concat] at hs
    rw [List.filterMap_append, List.mem_append]
    cases x with
    | subscribe b =>
      have happ : (((start e).after xs).subscriptions ++ [⟨b, false⟩])[k]? = some s := hs
      rw [List.getElem?_append] at happ
      split at happ
      · exact .inl (ih happ hended)
      · obtain rfl := List.mem_singleton.mp (List.mem_of_getElem? happ)
        cases hended
    | other y hy => exact .inl (ih hs hended)
    | unsubscribe j =>
      by_cases hj : j = k
      · exact .inr (by simp [hj, Move.number?])
      · simp only [step] at hs
        split at hs
        · exact .inl (ih hs hended)
        · dsimp only at hs
          rw [List.getElem?_set_ne hj] at hs
          exact .inl (ih hs hended)

/-- There is no stray call if no function is called twice. -/
theorem not_strays_of_nodup {xs : List Move} (hx : (xs.filterMap Move.number?).Nodup)
    {as bs : List Move} {x : Move} (hsplit : xs = as ++ x :: bs) :
    ¬((start e).after as).Strays o x := by
  intro hs
  cases x with
  | subscribe b => exact hs
  | other y hy => exact hs
  | unsubscribe k =>
    have hmem := mem_of_ended hs.1 rfl
    have hcons : (Move.unsubscribe k :: bs).filterMap Move.number? =
        k :: bs.filterMap Move.number? := rfl
    rw [hsplit, List.filterMap_append, hcons] at hx
    exact (List.nodup_append.mp hx).2.2 k hmem k List.mem_cons_self rfl

/-- From any start, whatever is subscribed, ended and done in between: an observer is never called
more often with a frame than it has live subscriptions, and it is called exactly as often at all
times if and only if no function of it is called again while the observer has others. -/
theorem calls_eq_live_iff (he : Engine.make w pose m = .ok e) (xs : List Move) (o : Nat) :
    (∀ as, as <+: xs → ∀ f, ((start e).after as).called o f ≤ ((start e).after as).live o) ∧
      ((∀ as, as <+: xs → ∀ f,
          ((start e).after as).called o f = ((start e).after as).live o) ↔
        ∀ as x bs, xs = as ++ x :: bs → ¬((start e).after as).Strays o x) := by
  have hempty : e.observers = [] := by
    obtain ⟨s, _, rfl⟩ := Queue.make_eq_ok he
    rfl
  simp only [called_eq]
  refine ⟨fun as _ _ => count_le_live hempty as o, fun hall as x bs hsplit => ?_,
    fun hnone as hpre _ => ?_⟩
  · have hbefore := hall as ⟨x :: bs, hsplit.symm⟩ e.shown
    have hbeyond := hall (as ++ [x]) ⟨bs, by simp [hsplit]⟩ e.shown
    rw [after_concat] at hbeyond
    exact ((step_balance x hbefore.le).2 hbefore).mp hbeyond
  · obtain ⟨cs, rfl⟩ := hpre
    exact count_eq_live hempty
      (fun bs x ds hsplit => hnone bs x (ds ++ cs) (by simp [hsplit]))

/-- Two subscriptions of one observer, the first of which is ended during a step. -/
theorem calls_eq_live_iff_corridor :
    let xs : List Move := [.subscribe 0, .subscribe 0, .other (.begin (.move false 1) .start none)
      rfl, .unsubscribe 0, .other (.wake .start) rfl]
    ∀ f, ((start .corridor).after xs).called 0 f = 1 := by
  intro xs f
  have he : Engine.make Engine.corridor.world none .standard = .ok .corridor := rfl
  exact (calls_eq_live_iff he xs 0).2.mpr
    (fun _ _ _ hsplit => not_strays_of_nodup (by decide) hsplit) xs (List.prefix_refl xs) f

/-- Calling the same function twice ends the other subscription of the observer: it has one that
was never ended and is not called any more. -/
theorem calls_ne_live_repeated :
    let a := (start .corridor).after
      [.subscribe 0, .subscribe 0, .unsubscribe 1, .unsubscribe 1]
    a.live 0 = 1 ∧ ∀ f, a.called 0 f = 0 :=
  ⟨rfl, fun _ => rfl⟩

end Audience

end Courier
