import Courier.Proofs.Engine.Session
import Courier.Proofs.Number.Order

namespace Courier

open Json (Value)

namespace Token

/-- The message of a cancellation: its reason, unless there is none. -/
def notice (reason : Value) : String := if reason.isFilled then reason.plain else "cancelled"

theorem notice_text (s : String) : notice (.text s) = if s = "" then "cancelled" else s := by
  by_cases h : s = ""
  · subst h
    rfl
  · simp [notice, Value.isFilled, h]

variable {t : Token} {r : Value}

theorem check_of_reason (h : t.reason = some r) : t.check = .error (.cancelled (notice r)) := by
  simp only [check, h, notice]

theorem check_of_none (h : t.reason = none) : t.check = .ok () := by
  simp only [check, h]

theorem reason_cancel (t : Token) (r : Value) : (t.cancel r).reason = some (t.reason.getD r) := by
  unfold cancel
  cases h : t.reason with
  | none => rfl
  | some r => exact h

end Token

/-- The time at which a timer cancels a token: when it is due, but not before now. -/
def Timer.moment (now : Binary64) (t : Timer) : Binary64 := if t.due.lt now then now else t.due

namespace Watch

open Token (notice)

/-- A call on the token of a watch; the timers are set by the caller. -/
inductive Call
  | cancel (reason : Value)
  | cancelAfter (seconds : Number) (reason : Value)
  | check
  | sleep (seconds : Value)

def step (w : Watch) (c : Call) : Except Fault Unit × Watch :=
  match c with
  | .cancel r => (.ok (), w.cancel r)
  | .cancelAfter seconds r =>
    match w.cancelAfter seconds r with
    | .ok v => (.ok (), v)
    | .error f => (.error f, w)
  | .check => (w.token.check, w)
  | .sleep v => w.sleepFor v

/-- The watch after some calls, whether they fail or not. -/
def run (w : Watch) (calls : List Call) : Watch := calls.foldl (fun w c => (w.step c).2) w

/-- A timer that one of some calls sets on a new watch. -/
def Sets (calls : List Call) (t : Timer) : Prop :=
  ∃ (before after : List Call) (seconds : Number),
    calls = before ++ .cancelAfter seconds t.reason :: after ∧
      (start.run before).after seconds = .ok t.due

/-- A sleep fails because a timer cancels the token. -/
structure InterruptedBy (w : Watch) (t : Timer) (r : Except Fault Unit × Watch) : Prop where
  fails : r.1 = .error (.cancelled (notice t.reason))
  now : r.2.now = t.moment w.now
  reason : r.2.token.reason = some t.reason

def pending (w : Watch) : List Timer := w.ripe ++ w.timers

/-- What holds for a watch at all times. -/
structure Runs (w : Watch) : Prop where
  now : (Number.float w.now).IsSpan
  due : ∀ t ∈ w.pending, t.due ≠ .nan
  ripe : ∀ t ∈ w.ripe, t.due.le w.now

section Timers

variable {now : Binary64} {t u : Timer} {ts : List Timer}

theorem le_moment (hn : now ≠ .nan) (ht : t.due ≠ .nan) : now.le (t.moment now) := by
  unfold Timer.moment
  split
  · exact Binary64.le_refl hn
  · next h => exact Binary64.le_of_not_lt ht hn h

theorem due_le_moment (hn : now ≠ .nan) (ht : t.due ≠ .nan) : t.due.le (t.moment now) := by
  unfold Timer.moment
  split
  · next h => exact Binary64.le_of_lt ht hn h
  · exact Binary64.le_refl ht

theorem moment_le {x : Binary64} (hn : now.le x) (ht : t.due.le x) : (t.moment now).le x := by
  unfold Timer.moment
  split
  · exact hn
  · exact ht

theorem moment_mono (hn : now ≠ .nan) (ht : t.due.le u.due) : (t.moment now).le (u.moment now) := by
  have hu := (Binary64.ne_nan_of_le ht).2
  exact moment_le (le_moment hn hu) (Binary64.le_trans ht (due_le_moment hn hu))

theorem earliest_eq_none : earliest ts = none ↔ ts = [] := by
  cases ts with
  | nil => exact iff_of_true rfl rfl
  | cons t ts =>
    refine iff_of_false ?_ (by simp)
    unfold earliest
    split <;> simp

/-- The earliest timer is due no later than any other. -/
theorem earliest_spec (hd : ∀ t ∈ ts, t.due ≠ .nan) (h : earliest ts = some t) :
    t ∈ ts ∧ ∀ u ∈ ts, t.due.le u.due := by
  induction ts generalizing t with
  | nil => cases h
  | cons v ts ih =>
    obtain ⟨hv, hts⟩ := List.forall_mem_cons.mp hd
    unfold earliest at h
    cases hrest : earliest ts with
    | none =>
      rw [hrest] at h
      cases h
      obtain rfl := earliest_eq_none.mp hrest
      simpa using Binary64.le_refl hv
    | some u =>
      rw [hrest] at h
      obtain ⟨hmem, hleast⟩ := ih hts hrest
      have hu := hts u hmem
      dsimp only at h
      split at h
      · next hlt =>
        cases h
        refine ⟨List.mem_cons_of_mem v hmem, List.forall_mem_cons.mpr ⟨?_, hleast⟩⟩
        exact Binary64.le_of_lt hu hv hlt
      · next hlt =>
        cases h
        have hle := Binary64.le_of_not_lt hu hv hlt
        refine ⟨List.mem_cons_self, List.forall_mem_cons.mpr ⟨Binary64.le_refl hv, ?_⟩⟩
        exact fun a ha => Binary64.le_trans hle (hleast a ha)

end Timers

section Sleep

variable {w : Watch} {t : Timer} {seconds : Number} {wake : Binary64}

theorem of_after (ha : w.after seconds = .ok wake) :
    ∃ x, seconds.toBinary64 = .ok x ∧
      wake = if w.now.add x = .nan then (w.next?.map (·.due)).getD w.now else w.now.add x := by
  rw [after, timeAfter_eq] at ha
  cases hx : seconds.toBinary64 with
  | error f =>
    rw [hx] at ha
    cases ha
  | ok x =>
    rw [hx] at ha
    exact ⟨x, rfl, (Except.ok.inj ha).symm⟩

namespace Runs

variable (h : w.Runs)

include h

theorem now_ne_nan : w.now ≠ .nan := by
  intro hn
  have hspan := h.now
  rw [hn] at hspan
  cases hspan

/-- The next timer is one that is due already, or the first one that is due later. -/
theorem next?_cases (hn : w.next? = some t) :
    t ∈ w.ripe ∨ w.ripe = [] ∧ t ∈ w.timers ∧ ∀ u ∈ w.timers, t.due.le u.due := by
  unfold next? at hn
  split at hn
  · next he =>
    cases hn
    exact .inl (earliest_spec (fun u hu => h.due u (List.mem_append_left _ hu)) he).1
  · next he =>
    exact .inr ⟨earliest_eq_none.mp he,
      earliest_spec (fun u hu => h.due u (List.mem_append_right _ hu)) hn⟩

theorem mem_of_next? (hn : w.next? = some t) : t ∈ w.pending := by
  rcases h.next?_cases hn with hr | ⟨_, ht, _⟩
  · exact List.mem_append_left _ hr
  · exact List.mem_append_right _ ht

/-- The next timer cancels no later than any other. -/
theorem moment_of_next? (hn : w.next? = some t) :
    ∀ u ∈ w.pending, (t.moment w.now).le (u.moment w.now) := by
  intro u hu
  have hnow := h.now_ne_nan
  rcases h.next?_cases hn with hr | ⟨hempty, _, hleast⟩
  · have hle := moment_le (Binary64.le_refl hnow) (h.ripe t hr)
    exact Binary64.le_trans hle (le_moment hnow (h.due u hu))
  · have hmem : u ∈ w.timers := by simpa [pending, hempty] using hu
    exact moment_mono hnow (hleast u hmem)

omit h in
theorem exists_next? {u : Timer} (hu : u ∈ w.pending) : ∃ t, w.next? = some t := by
  unfold next?
  cases hr : earliest w.ripe with
  | some t => exact ⟨t, rfl⟩
  | none =>
    have hempty := earliest_eq_none.mp hr
    have hmem : u ∈ w.timers := by simpa [pending, hempty] using hu
    refine Option.ne_none_iff_exists'.mp fun hn => ?_
    rw [earliest_eq_none.mp hn] at hmem
    cases hmem

theorem after_ne_nan (ha : w.after seconds = .ok wake) : wake ≠ .nan := by
  obtain ⟨x, _, rfl⟩ := of_after ha
  split
  · cases hn : w.next? with
    | none => exact h.now_ne_nan
    | some t => exact h.due t (h.mem_of_next? hn)
  · next hne => exact hne

theorem now_le_add {x : Binary64} (hs : seconds.IsSpan) (hx : seconds.toBinary64 = .ok x) :
    w.now.le (w.now.add x) :=
  Binary64.le_add h.now ((Number.alike_toBinary64 hx).isSpan hs)

/-- A sleep of positive length ends that much later. -/
theorem after_eq_ok_iff (hs : Number.lt (.int 0) seconds) :
    w.after seconds = .ok wake ↔ Number.add (.float w.now) seconds = .ok (.float wake) := by
  rw [Watch.after, timeAfter_eq, Number.add, Number.promote_float]
  cases hx : seconds.toBinary64 with
  | error f => exact iff_of_false (fun h => by cases h) (fun h => by cases h)
  | ok x =>
    have hne := (Binary64.ne_nan_of_le (h.now_le_add (Number.isSpan_of_pos hs) hx)).2
    change Except.ok (if _ then _ else _) = _ ↔ Except.ok (Number.float _) = _
    rw [if_neg hne, Except.ok.injEq, Except.ok.injEq, Number.float.injEq]

theorem now_le_sum (hs : Number.lt (.int 0) seconds)
    (ha : Number.add (.float w.now) seconds = .ok (.float wake)) : w.now.le wake := by
  rw [← h.after_eq_ok_iff hs] at ha
  obtain ⟨x, hx, rfl⟩ := of_after ha
  have hle := h.now_le_add (Number.isSpan_of_pos hs) hx
  rwa [if_neg (Binary64.ne_nan_of_le hle).2]

/-- A sleep that no timer ends does not end before now. -/
theorem now_le_wake (hs : ¬seconds.le (.int 0)) (ha : w.after seconds = .ok wake)
    (hn : ∀ t, w.next? = some t → ¬t.due.le wake) : w.now.le wake := by
  have hlt : seconds.lt (.int 0) = false := by
    rw [← Bool.not_eq_true]
    intro hlt
    exact hs (by rw [Number.le, ← Number.lt, hlt, Bool.true_or])
  obtain ⟨x, hx, rfl⟩ := of_after ha
  rcases Number.isSpan_of_lt_zero hlt with rfl | hspan
  · -- a sleep without a number of seconds ends with the next timer, or at once
    cases hx
    have hadd : w.now.add .nan = .nan := by cases w.now <;> rfl
    rw [if_pos hadd] at hn ⊢
    cases hnext : w.next? with
    | none => exact Binary64.le_refl h.now_ne_nan
    | some t =>
      rw [hnext] at hn
      exact absurd (Binary64.le_refl (h.due t (h.mem_of_next? hnext))) (hn t rfl)
  · have hle := h.now_le_add hspan hx
    rwa [if_neg (Binary64.ne_nan_of_le hle).2]

end Runs

/-- What a sleep does while the token is not cancelled. -/
inductive Sleeps (w : Watch) : Except Fault Unit × Watch → Prop
  | refused {f : Fault} (hf : ∀ text, f ≠ .cancelled text) : Sleeps w (.error f, w)
  /-- A pause without length looks for the timers that are due. -/
  | paused (hr : w.ripe = []) : Sleeps w (.ok (), { w with
      ripe := w.timers.filter (·.due.le w.now)
      timers := w.timers.filter (fun t => !t.due.le w.now) })
  | woken {t : Timer} (ht : w.next? = some t) : Sleeps w (w.fire t)
  | rested {wake : Binary64} (hw : w.now.le wake) : Sleeps w (.ok (), { w with now := wake })

theorem sleepUntil_woken (ht : w.next? = some t) (hd : t.due.le wake) :
    w.sleepUntil wake = w.fire t := by
  unfold sleepUntil
  rw [ht]
  exact if_pos hd

theorem sleepUntil_rested (hd : ∀ t, w.next? = some t → ¬t.due.le wake) :
    w.sleepUntil wake = (.ok (), { w with now := wake }) := by
  unfold sleepUntil
  cases hn : w.next? with
  | none => rfl
  | some t => exact if_neg (hd t hn)

theorem sleep_pos (ht : w.token.reason = none) (hs : Number.lt (.int 0) seconds) :
    w.sleep seconds =
      match w.after seconds with
      | .error f => (.error (.number f), w)
      | .ok wake => w.sleepUntil wake := by
  have hpos : ¬seconds.le (.int 0) = true := by
    rw [Number.not_le_of_pos hs]
    exact Bool.false_ne_true
  unfold sleep
  rw [Token.check_of_none ht]
  exact if_neg hpos

theorem Runs.sleeps (h : w.Runs) (ht : w.token.reason = none) (seconds : Number) :
    w.Sleeps (w.sleep seconds) := by
  unfold sleep
  rw [Token.check_of_none ht]
  dsimp only
  split
  · unfold yieldOnce
    split
    · next t he => exact .woken (by rw [next?, he])
    · next he => exact .paused (earliest_eq_none.mp he)
  · next hs =>
    split
    · exact .refused nofun
    · next wake ha =>
      by_cases hn : ∃ t, w.next? = some t ∧ t.due.le wake
      · obtain ⟨t, ht, hd⟩ := hn
        rw [sleepUntil_woken ht hd]
        exact .woken ht
      · have hlate : ∀ t, w.next? = some t → ¬t.due.le wake := fun t ht hd => hn ⟨t, ht, hd⟩
        rw [sleepUntil_rested hlate]
        exact .rested (h.now_le_wake hs ha hlate)

theorem Runs.sleepFor (h : w.Runs) (ht : w.token.reason = none) (v : Value) :
    w.Sleeps (w.sleepFor v) := by
  unfold Watch.sleepFor
  rw [Token.check_of_none ht, ok_bind]
  cases hv : v.number? with
  | none =>
    rw [Value.toNumber, hv]
    exact .refused nofun
  | some s =>
    rw [Value.toNumber, hv]
    exact h.sleeps ht s

theorem sleepFor_cancelled {r : Value} (hr : w.token.reason = some r) (v : Value) :
    w.sleepFor v = (.error (.cancelled (notice r)), w) := by
  unfold Watch.sleepFor
  rw [Token.check_of_reason hr]
  rfl

theorem sleepFor_number {v : Value} (hv : v.toNumber = .ok seconds)
    (ht : w.token.reason = none) : w.sleepFor v = w.sleep seconds := by
  unfold Watch.sleepFor
  rw [Token.check_of_none ht, ok_bind, hv]

/-- A timer that cancels the token interrupts the sleep. -/
theorem fire_interrupts (ht : w.token.reason = none) (t : Timer) :
    InterruptedBy w t (w.fire t) := by
  have hr : (w.token.cancel t.reason).reason = some t.reason := by
    rw [Token.reason_cancel, ht]
    rfl
  exact ⟨Token.check_of_reason hr, rfl, hr⟩

end Sleep

section Steps

variable {w : Watch} {r : Except Fault Unit × Watch}

theorem Sleeps.now_le (hs : w.Sleeps r) (h : w.Runs) : w.now.le r.2.now := by
  cases hs with
  | refused => exact Binary64.le_refl h.now_ne_nan
  | paused => exact Binary64.le_refl h.now_ne_nan
  | woken ht => exact le_moment h.now_ne_nan (h.due _ (h.mem_of_next? ht))
  | rested hw => exact hw

/-- No timer is lost in a sleep. -/
theorem Sleeps.mem_pending (hs : w.Sleeps r) (t : Timer) : t ∈ r.2.pending ↔ t ∈ w.pending := by
  cases hs with
  | refused => exact Iff.rfl
  | paused hr =>
    simp only [pending, hr, List.nil_append, List.mem_append, List.mem_filter, ← and_or_left]
    by_cases hd : t.due.le w.now <;> simp [hd]
  | woken => exact Iff.rfl
  | rested => exact Iff.rfl

/-- The clock may go on. -/
theorem Runs.later {v : Watch} (h : w.Runs) (hn : w.now.le v.now) (hr : v.ripe = w.ripe)
    (ht : v.timers = w.timers) : v.Runs where
  now := Binary64.isSpan_of_le h.now hn
  due t hmem := h.due t (by rwa [pending, hr, ht] at hmem)
  ripe t hmem := Binary64.le_trans (h.ripe t (hr ▸ hmem)) hn

theorem Sleeps.runs (hs : w.Sleeps r) (h : w.Runs) : r.2.Runs := by
  cases hs with
  | refused => exact h
  | paused hr =>
    exact ⟨h.now, fun t ht => h.due t (((Sleeps.paused hr).mem_pending t).mp ht),
      fun t ht => (List.mem_filter.mp ht).2⟩
  | woken ht => exact h.later (le_moment h.now_ne_nan (h.due _ (h.mem_of_next? ht))) rfl rfl
  | rested hw => exact h.later hw rfl rfl

theorem runs_start : start.Runs where
  now := by decide
  due := by simp [pending, start]
  ripe := by simp [start]

theorem step_cancelAfter (w : Watch) (seconds : Number) (r : Value) :
    w.step (.cancelAfter seconds r) =
      match w.after seconds with
      | .ok x => (.ok (), { w with timers := w.timers ++ [⟨x, r⟩] })
      | .error f => (.error (.number f), w) := by
  unfold step cancelAfter
  dsimp only
  generalize w.after seconds = a
  cases a <;> rfl

/-- What one call does to a watch. -/
theorem Runs.step (h : w.Runs) (c : Call) :
    (w.step c).2.Runs ∧ w.now.le (w.step c).2.now ∧
      (∀ t, t ∈ (w.step c).2.pending ↔ t ∈ w.pending ∨
        ∃ seconds, c = .cancelAfter seconds t.reason ∧ w.after seconds = .ok t.due) ∧
      ∀ r, w.token.reason = some r → (w.step c).2.token.reason = some r := by
  have hnow := Binary64.le_refl h.now_ne_nan
  cases c with
  | cancel r =>
    refine ⟨h.later hnow rfl rfl, hnow, fun t => by simp [Watch.step, pending, cancel], ?_⟩
    intro r' hr
    exact (Token.reason_cancel _ _).trans (by rw [hr]; rfl)
  | check => exact ⟨h, hnow, fun t => by simp [Watch.step], fun _ hr => hr⟩
  | cancelAfter seconds r =>
    rw [step_cancelAfter]
    cases ha : w.after seconds with
    | error f =>
      refine ⟨h, hnow, fun t => (or_iff_left ?_).symm, fun _ hr => hr⟩
      rintro ⟨s, hs, hd⟩
      cases hs
      cases ha.symm.trans hd
    | ok x =>
      have hmem (t : Timer) : t ∈ pending { w with timers := w.timers ++ [⟨x, r⟩] } ↔
          t ∈ w.pending ∨ t = ⟨x, r⟩ := by
        simp [pending, or_assoc]
      refine ⟨⟨h.now, fun t ht => ?_, h.ripe⟩, hnow, fun t => (hmem t).trans (or_congr_right ?_),
        fun _ hr => hr⟩
      · rcases (hmem t).mp ht with ht | rfl
        · exact h.due t ht
        · exact h.after_ne_nan ha
      · constructor
        · rintro rfl
          exact ⟨seconds, rfl, ha⟩
        · rintro ⟨s, hs, hd⟩
          cases hs
          cases ha.symm.trans hd
          rfl
  | sleep v =>
    cases hr : w.token.reason with
    | none =>
      have hs := h.sleepFor hr v
      exact ⟨hs.runs h, hs.now_le h, fun t => (hs.mem_pending t).trans (by simp), nofun⟩
    | some r =>
      have he : w.step (.sleep v) = (_, w) := sleepFor_cancelled hr v
      rw [he]
      exact ⟨h, hnow, fun t => by simp, fun r' hr' => by rw [hr, hr']⟩

end Steps

section Run

variable {w : Watch} {calls : List Call}

theorem run_concat (w : Watch) (calls : List Call) (c : Call) :
    w.run (calls ++ [c]) = ((w.run calls).step c).2 := by
  rw [run, List.foldl_append]
  rfl

/-- Any calls let the clock go on and a reason stay. -/
theorem Runs.run (h : w.Runs) (calls : List Call) :
    (w.run calls).Runs ∧ w.now.le (w.run calls).now ∧
      ∀ r, w.token.reason = some r → (w.run calls).token.reason = some r := by
  induction calls generalizing w with
  | nil => exact ⟨h, Binary64.le_refl h.now_ne_nan, fun _ hr => hr⟩
  | cons c calls ih =>
    obtain ⟨hs, hle, _, hreason⟩ := h.step c
    obtain ⟨hruns, hlater, hkeeps⟩ := ih hs
    exact ⟨hruns, Binary64.le_trans hle hlater, fun r hr => hkeeps r (hreason r hr)⟩

theorem sets_concat {c : Call} {t : Timer} :
    Sets (calls ++ [c]) t ↔ Sets calls t ∨
      ∃ seconds, c = .cancelAfter seconds t.reason ∧
        (start.run calls).after seconds = .ok t.due := by
  constructor
  · rintro ⟨before, after, seconds, heq, hdue⟩
    rcases List.eq_nil_or_concat after with rfl | ⟨after, d, rfl⟩
    · obtain ⟨rfl, hc⟩ := List.append_inj' heq rfl
      exact .inr ⟨seconds, List.singleton_inj.mp hc, hdue⟩
    · have heq' : calls ++ [c] = (before ++ .cancelAfter seconds t.reason :: after) ++ [d] := by
        rw [heq]
        simp
      obtain ⟨hcalls, _⟩ := List.append_inj' heq' rfl
      exact .inl ⟨before, after, seconds, hcalls, hdue⟩
  · rintro (⟨before, after, seconds, rfl, hdue⟩ | ⟨seconds, rfl, hdue⟩)
    · exact ⟨before, after ++ [c], seconds, by simp, hdue⟩
    · exact ⟨calls, [], seconds, rfl, hdue⟩

/-- The timers that stand on a watch are those that were set on it. -/
theorem mem_pending_iff (calls : List Call) (t : Timer) :
    t ∈ (start.run calls).pending ↔ Sets calls t := by
  induction calls using List.reverseRecOn with
  | nil =>
    refine iff_of_false (by simp [pending, start, run]) ?_
    rintro ⟨before, after, seconds, heq, _⟩
    simp at heq
  | append_singleton calls c ih =>
    have hruns := (runs_start.run calls).1
    rw [run_concat, (hruns.step c).2.2.1, ih, sets_concat]

end Run

section Prompt

variable {w : Watch} {r : Except Fault Unit × Watch} {seconds : Number} {wake : Binary64}

/-- A sleep fails with a cancellation exactly if a timer cancels the token in it. -/
theorem Sleeps.outcome (hs : w.Sleeps r) (h : w.Runs) (ht : w.token.reason = none) :
    (∃ t ∈ w.pending, InterruptedBy w t r) ∨
      r.2.token.reason = none ∧ ∀ text, r.1 ≠ .error (.cancelled text) := by
  cases hs with
  | refused hf => exact .inr ⟨ht, fun text he => hf text (Except.error.inj he)⟩
  | paused => exact .inr ⟨ht, nofun⟩
  | woken hn => exact .inl ⟨_, h.mem_of_next? hn, fire_interrupts ht _⟩
  | rested => exact .inr ⟨ht, nofun⟩

namespace Runs

variable (h : w.Runs) (ht : w.token.reason = none) (hs : Number.lt (.int 0) seconds)

include h ht hs

theorem sleep_in_time (hok : (w.sleep seconds).1 = .ok ()) :
    Number.add (.float w.now) seconds = .ok (.float (w.sleep seconds).2.now) := by
  rw [sleep_pos ht hs] at hok ⊢
  cases ha : w.after seconds with
  | error f =>
    rw [ha] at hok
    cases hok
  | ok wake =>
    rw [ha] at hok
    dsimp only at hok ⊢
    by_cases hn : ∃ t, w.next? = some t ∧ t.due.le wake
    · obtain ⟨t, hnext, hd⟩ := hn
      rw [sleepUntil_woken hnext hd, (fire_interrupts ht t).fails] at hok
      cases hok
    · rw [sleepUntil_rested (fun t hnext hd => hn ⟨t, hnext, hd⟩)]
      exact (h.after_eq_ok_iff hs).mp ha

variable (ha : Number.add (.float w.now) seconds = .ok (.float wake))

include ha

theorem sleep_interrupted {u : Timer} (hu : u ∈ w.pending) (hd : u.due.le wake) :
    ∃ t ∈ w.pending, InterruptedBy w t (w.sleep seconds) ∧ (t.moment w.now).le wake ∧
      ∀ v ∈ w.pending, (t.moment w.now).le (v.moment w.now) := by
  have hafter := (h.after_eq_ok_iff hs).mpr ha
  obtain ⟨t, hn⟩ := exists_next? hu
  have hmem := h.mem_of_next? hn
  have hleast := h.moment_of_next? hn
  have hnow := h.now_le_sum hs ha
  have hmoment := Binary64.le_trans (hleast u hu) (moment_le hnow hd)
  have hdue := Binary64.le_trans (due_le_moment h.now_ne_nan (h.due t hmem)) hmoment
  rw [sleep_pos ht hs, hafter]
  dsimp only
  rw [sleepUntil_woken hn hdue]
  exact ⟨t, hmem, fire_interrupts ht t, hmoment, hleast⟩

theorem sleep_undisturbed (hlate : ∀ u ∈ w.pending, ¬u.due.le wake) :
    w.sleep seconds = (.ok (), { w with now := wake }) := by
  rw [sleep_pos ht hs, (h.after_eq_ok_iff hs).mpr ha]
  exact sleepUntil_rested fun t hn => hlate t (h.mem_of_next? hn)

end Runs

/-- Cancellation, for good and in time. On a token on a new clock, after any calls: a cancellation
counts at once if it is the first one, and a reason stays while checks and sleeps fail with it; a
sleep on a token that is not cancelled fails with a cancellation exactly if a timer that was set
before cancels the token in it, at the moment of that timer; a sleep of positive length that does
not fail ends that much later, it is interrupted by the first timer that is due by then, at its
moment, and not at all if there is none; and the clock never goes back. -/
theorem cancelled_once_promptly (earlier later : List Call) :
    let w := start.run earlier
    (∀ s, notice (.text s) = if s = "" then "cancelled" else s) ∧
      (∀ r, (w.step (.cancel r)).2.token.reason = some (w.token.reason.getD r)) ∧
      (∀ r, w.token.reason = some r → (w.run later).token.reason = some r ∧
        (w.run later).step .check = (.error (.cancelled (notice r)), w.run later) ∧
        ∀ v, (w.run later).step (.sleep v) = (.error (.cancelled (notice r)), w.run later)) ∧
      (w.token.reason = none → w.step .check = (.ok (), w) ∧ ∀ v,
        ((∃ t, Sets earlier t ∧ InterruptedBy w t (w.step (.sleep v))) ∨
          (w.step (.sleep v)).2.token.reason = none ∧
            ∀ text, (w.step (.sleep v)).1 ≠ .error (.cancelled text)) ∧
        ∀ seconds, v.toNumber = .ok seconds → Number.lt (.int 0) seconds →
          ((w.step (.sleep v)).1 = .ok () →
            Number.add (.float w.now) seconds = .ok (.float (w.step (.sleep v)).2.now)) ∧
          ∀ wake, Number.add (.float w.now) seconds = .ok (.float wake) →
            ((∃ u, Sets earlier u ∧ u.due.le wake) →
              ∃ t, Sets earlier t ∧ InterruptedBy w t (w.step (.sleep v)) ∧
                (t.moment w.now).le wake ∧
                ∀ u, Sets earlier u → (t.moment w.now).le (u.moment w.now)) ∧
            ((∀ u, Sets earlier u → ¬u.due.le wake) →
              w.step (.sleep v) = (.ok (), { w with now := wake }))) ∧
      w.now.le (w.run later).now := by
  intro w
  have h : w.Runs := (runs_start.run earlier).1
  have hsets (t : Timer) : t ∈ w.pending ↔ Sets earlier t := mem_pending_iff earlier t
  clear_value w
  obtain ⟨_, hnow, hkeeps⟩ := h.run later
  refine ⟨Token.notice_text, fun r => Token.reason_cancel _ r, ?_, ?_, hnow⟩
  · intro r hr
    have hlater := hkeeps r hr
    refine ⟨hlater, ?_, sleepFor_cancelled hlater⟩
    exact Prod.ext (Token.check_of_reason hlater) rfl
  · intro hr
    refine ⟨Prod.ext (Token.check_of_none hr) rfl, fun v => ⟨?_, ?_⟩⟩
    · have hout := (h.sleepFor hr v).outcome h hr
      simp only [hsets] at hout
      exact hout
    · intro seconds hv hs
      have hstep : w.step (.sleep v) = w.sleep seconds := sleepFor_number hv hr
      rw [hstep]
      refine ⟨h.sleep_in_time hr hs, fun wake ha => ⟨?_, ?_⟩⟩
      · rintro ⟨u, hu, hd⟩
        simpa only [hsets] using h.sleep_interrupted hr hs ha ((hsets u).mpr hu) hd
      · intro hlate
        exact h.sleep_undisturbed hr hs ha fun u hu => hlate u ((hsets u).mp hu)

/-- Of two timers the one that is due first ends the sleep, with its reason. -/
example :
    let w := start.run [.cancelAfter (.int 2) (.text "late"), .cancelAfter (.int 1) (.text "stop"),
      .sleep (.int 3), .cancel (.text "again")]
    w.now = Binary64.ofInt 1 ∧ w.token.reason.map notice = some "stop" := by
  decide +kernel

end Prompt

end Watch

end Courier
