import Courier.Proofs.Engine.Session
import Courier.Proofs.Queue.Passage
import Courier.Proofs.Queue.Posture

namespace Courier

/-- The status that a call ends in if it halts a queue with a status. -/
def Call.halt? : Call → Status → Option Status
  | .stop, _ => some .idle
  | .pause, .running => some .paused
  | _, _ => none

theorem Call.halt?_ne_running {c : Call} {s status : Status} (h : c.halt? s = some status) :
    status ≠ .running := by
  unfold halt? at h
  split at h
  · cases h; simp
  · cases h; simp
  · cases h

def Turn.IsCall : Turn → Prop
  | .call _ => True
  | .given _ _ => True
  | _ => False

/-- The outcome of the line in execution, if there is one, is not settled: it can be read, and is
not in its last stretch. -/
def Phase.IsOpen : Phase → Prop
  | .executing line => ∃ i, Instruction.parse line.plain = .ok i
  | .showing _ (.next _ _ p) => ∃ seconds a, p = .pause seconds a
  | _ => True

namespace Queue

/-- There is no fault but with the status error. -/
def IsFaultless (q : Queue) : Prop := q.status ≠ .error → q.fault = none

/-- A line in execution is cancelled. -/
def IsRevoked (q : Queue) : Prop := ∀ k, q.token = some k → k.isCancelled

variable {q : Queue}

theorem isRevoked_cancelInFlight (q : Queue) (reason : String) :
    (q.cancelInFlight reason).IsRevoked := by
  intro k hk
  obtain ⟨j, _, rfl⟩ := Option.map_eq_some_iff.mp hk
  exact j.isCancelled_cancel _

theorem tokenCheck_revoked (h : q.IsRevoked) (ht : q.token.isSome) :
    ∃ text, q.tokenCheck = .error (.cancelled text) := by
  obtain ⟨k, hk⟩ := Option.isSome_iff_exists.mp ht
  unfold tokenCheck
  rw [hk]
  exact Token.check_of_cancelled (h k hk)

end Queue

namespace Instant

variable {F : Fault → Prop} {q r : Queue} {ds : List Duty} {p : Phase} {line : Line}
  {i : Instruction} {m n : Instant}

-- Faults.

theorem faultless_call (h : q.IsFaultless) (ds : List Duty) (p : Phase) (c : Call) :
    (call q ds p c).queue.IsFaultless := by
  have hshift (status : Status) {r : Queue} (hr : r.fault = none) :
      (r.shift status).IsFaultless := by
    obtain ⟨a, he⟩ := shift_eq status r
    rw [he]
    exact fun _ => hr
  cases c with
  | run lines => exact hshift .running (r := q.renew _ lines) rfl
  | enqueue line => exact h
  | setQueue lines => exact h
  | start =>
    simp only [call]
    split
    · next hs => exact hshift .running (h (by simp [hs]))
    · next hs => exact hshift .running (h (by simp [hs]))
    · exact h
  | pause =>
    simp only [call]
    split
    · next hs => exact hshift .paused (r := q.cancelInFlight _) (h (by simp [hs]))
    · exact h
  | resume =>
    simp only [call]
    split
    · next hs => exact hshift .running (h (by simp [hs]))
    · exact h
  | stop => exact hshift .idle (r := q.renew _ []) rfl

theorem faultless_fail (q : Queue) (f : Fault) : (fail q f).queue.IsFaultless := by
  obtain ⟨a, he⟩ := fail_eq q f
  rw [he]
  exact fun hs => absurd rfl hs

theorem faultless_comes (h : Comes F q line m) (hq : q.IsFaultless) : m.queue.IsFaultless := by
  cases h with
  | result r => exact hq
  | dropped => exact hq
  | failed hf => exact faultless_fail _ _
  | pause hb i job time => exact hq
  | shows hb es hs => exact hq

theorem faultless_take (hq : q.IsFaultless) : (take q).queue.IsFaultless := by
  refine take_cases (C := fun m => m.queue.IsFaultless) q ?_ ?_ ?_ ?_
  · exact fun _ => hq
  · exact fun a f _ _ _ hs => absurd rfl hs
  · exact fun a hs _ _ _ => hq (by simp [hs])
  · exact fun line pending _ _ => hq

theorem faultless_advance (hm : p.Suits q) (hq : q.IsFaultless) :
    (advance q p).queue.IsFaultless := by
  refine advance_cases (C := fun m => m.queue.IsFaultless) hm ?_ ?_ ?_ ?_ ?_ ?_ ?_ ?_
  · exact fun _ => hq
  · exact fun _ => faultless_take hq
  · exact fun a b line m _ _ hc => faultless_comes hc hq
  · exact fun e es s a k ds _ _ => hq
  · exact fun _ => hq
  · exact fun _ => hq
  · exact fun line _ => hq
  · exact fun failed _ => hq

theorem faultless_begin (hm : q.IsParked) (hq : q.IsFaultless) (t : Turn) :
    (begin q t).queue.IsFaultless := by
  refine begin_cases (C := fun m => m.queue.IsFaultless) hm t ?_ ?_ ?_ ?_ ?_ ?_ ?_
  · exact fun c _ => faultless_call hq [] .resting c
  · exact fun _ => hq
  · exact fun os time table => hq
  · exact fun s => hq
  · exact fun _ => hq
  · exact fun line i job time m _ _ _ hc => faultless_comes hc hq
  · exact hq

theorem faultless_step {l : Option Turn} (hq : m.queue.IsFaultless) (hm : Sound m)
    (hs : Step m l n) : n.queue.IsFaultless := by
  cases hs with
  | turn q t => exact faultless_begin hm hq t
  | answer q moment ds p c => exact faultless_call hq _ p c
  | order q moment ds p os => exact hq
  | heeded q moment ds p => exact hq
  | kick q ds p =>
    obtain ⟨w, hw⟩ := kick_eq q
    rw [hw]
    exact hq
  | advance q hp => exact faultless_advance hm hq

theorem Passes.faultless {P : Instant → Option Turn → Prop} {t : Interpreter} {e : Engine}
    (h : Passes P (ofQueue (.make t e)) m) : m.queue.IsFaultless :=
  h.keeps (I := fun b => b.queue.IsFaultless) (sound_make t e) (fun _ => rfl)
    (fun hb hq hs _ => faultless_step hq hb hs)

-- A queue that was halted.

/-- No control calls are made. -/
def Uncalled (_ : Instant) (l : Option Turn) : Prop := ∀ t, l = some t → ¬t.IsCall

structure Halted (status : Status) (done : Array StepResult) (m : Instant) : Prop where
  status : m.queue.status = status
  fault : m.queue.fault = none
  completed : m.queue.completed = done
  token : m.queue.IsRevoked
  phase : m.phase.IsOpen

variable {status : Status} {done : Array StepResult}

/-- What halts the queue leaves the phase alone. -/
theorem halted_call {c : Call} (hq : q.IsFaultless) (hp : p.IsOpen)
    (hc : c.halt? q.status = some status) : Halted status q.completed (call q ds p c) := by
  have hshift (r : Queue) (hf : r.fault = none) (hd : r.completed = q.completed)
      (hr : r.IsRevoked) : Halted status q.completed (announce (r.shift status) ds p) := by
    obtain ⟨a, he⟩ := shift_eq status r
    rw [he]
    exact ⟨rfl, hf, hd, hr, hp⟩
  cases c with
  | stop =>
    cases hc
    exact hshift (q.renew "stopped" []) rfl rfl (q.isRevoked_cancelInFlight _)
  | pause =>
    cases hs : q.status with
    | running =>
      rw [hs] at hc
      cases hc
      simp only [call, hs]
      exact hshift (q.cancelInFlight "paused") (hq (by simp [hs])) rfl
        (q.isRevoked_cancelInFlight _)
    | _ => rw [hs] at hc; cases hc
  | _ => cases hc

theorem halted_abandon (h : Halted status done ⟨q, ds, p⟩) (line : Line) :
    Halted status done (abandon q line) :=
  ⟨h.status, h.fault, h.completed, h.token, trivial⟩

theorem halted_interrupt (h : Halted status done ⟨q, ds, p⟩) (line : Line) (job : Job)
    (text : String) : Halted status done (interrupt q line job (.cancelled text)) := by
  unfold interrupt
  split
  · exact ⟨h.status, h.fault, h.completed, h.token, trivial⟩
  · exact halted_abandon h line

/-- A cancelled line that can be read is not begun. -/
theorem execute_cancelled {text : String} (hc : q.tokenCheck = .error (.cancelled text))
    (hp : Instruction.parse line.plain = .ok i) : execute q line = abandon q line := by
  unfold Queue.tokenCheck at hc
  unfold execute Interpreter.openLine
  rw [hp, ok_bind, hc]
  rfl

theorem sleep_cancelled {text : String} (hc : q.tokenCheck = .error (.cancelled text))
    (job : Job) (seconds : Number) :
    sleep q line i job seconds = interrupt q line job (.cancelled text) := by
  unfold sleep
  rw [hc]

theorem wake_cancelled {text : String} (hc : q.tokenCheck = .error (.cancelled text))
    (job : Job) : wake q line i job = interrupt q line job (.cancelled text) := by
  unfold wake
  rw [hc]

theorem halted_advance (hs : status ≠ .running) (hm : p.Suits q)
    (h : Halted status done ⟨q, [], p⟩) : Halted status done (advance q p) := by
  have hq : q.status ≠ .running := by rw [h.status]; exact hs
  have hcheck (he : q.IsEngaged) : ∃ text, q.tokenCheck = .error (.cancelled text) :=
    Queue.tokenCheck_revoked h.token he.token
  cases p with
  | resting => exact ⟨h.status, h.fault, h.completed, h.token, trivial⟩
  | taking =>
    have ht : take q = ⟨{ q with worker := .absent }, [], .resting⟩ := by
      unfold take
      split
      · next hr => exact absurd hr hq
      · rfl
    simp only [advance]
    rw [ht]
    exact ⟨h.status, h.fault, h.completed, h.token, trivial⟩
  | telling => exact ⟨h.status, h.fault, h.completed, h.token, trivial⟩
  | releasing line =>
    exact ⟨h.status, h.fault, h.completed, by simp [advance, Queue.IsRevoked], trivial⟩
  | leaving failed =>
    refine ⟨h.status, h.fault, h.completed, ?_, trivial⟩
    cases failed with
    | true => simp [advance, ofQueue, Queue.IsRevoked]
    | false => exact h.token
  | executing line =>
    obtain ⟨text, hc⟩ := hcheck hm
    obtain ⟨i, hi⟩ := h.phase
    simp only [advance]
    rw [execute_cancelled hc hi]
    exact halted_abandon h line
  | showing es s =>
    cases es with
    | cons e es =>
      obtain ⟨a, k, ds, he, _⟩ := display_eq q e (.showing es s)
      simp only [advance]
      rw [he]
      refine ⟨h.status, h.fault, h.completed, h.token, ?_⟩
      cases s with
      | next l i p => exact h.phase
      | stumble l f => trivial
      | rest => trivial
    | nil =>
      simp only [advance]
      cases s with
      | rest => exact ⟨h.status, h.fault, h.completed, h.token, trivial⟩
      | next l i p =>
        obtain ⟨text, hc⟩ := hcheck hm.1
        obtain ⟨seconds, a, rfl⟩ := h.phase
        simp only [follow]
        rw [sleep_cancelled hc]
        exact halted_interrupt h l _ text
      | stumble l f =>
        obtain ⟨_, line, ⟨_, text, rfl⟩, _⟩ := hm
        exact halted_abandon h l

theorem halted_begin (hm : q.IsParked) (h : Halted status done (ofQueue q)) {t : Turn}
    (ht : ¬t.IsCall) : Halted status done (begin q t) := by
  have hsame {r : Queue} {p : Phase} (hr : r.status = q.status ∧ r.fault = q.fault ∧
      r.completed = q.completed ∧ r.token = q.token) (hp : p.IsOpen) :
      Halted status done ⟨r, [], p⟩ := by
    obtain ⟨hs, hf, hd, hk⟩ := hr
    refine ⟨hs.trans h.status, hf.trans h.fault, hd.trans h.completed, ?_, hp⟩
    unfold Queue.IsRevoked
    rw [hk]
    exact h.token
  cases t with
  | call c => exact absurd trivial ht
  | given isRun v => exact absurd trivial ht
  | leave o => exact hsame ⟨rfl, rfl, rfl, rfl⟩ trivial
  | register name c => exact hsame ⟨rfl, rfl, rfl, rfl⟩ trivial
  | reset pose =>
    simp only [begin]
    split
    · exact hsame ⟨rfl, rfl, rfl, rfl⟩ trivial
    · exact h
  | clock time => exact hsame ⟨rfl, rfl, rfl, rfl⟩ trivial
  | work =>
    simp only [begin]
    unfold Queue.IsParked at hm
    split
    · exact hsame ⟨rfl, rfl, rfl, rfl⟩ trivial
    · next line i job time hw =>
      rw [hw] at hm
      have hb : Halted status done ⟨{ q with worker := .busy }, [], .resting⟩ :=
        hsame ⟨rfl, rfl, rfl, rfl⟩ trivial
      obtain ⟨text, hc⟩ := Queue.tokenCheck_revoked hb.token hm.1
      rw [wake_cancelled hc]
      exact halted_interrupt hb line job text
    · exact h

/-- A step other than a call leaves a halted queue halted. -/
theorem Halted.step {l : Option Turn} (hstatus : status ≠ .running)
    (h : Halted status done m) (hm : Sound m) (hs : Step m l n) (hl : Uncalled m l) :
    Halted status done n := by
  cases hs with
  | turn q t => exact halted_begin hm h (hl t rfl)
  | answer q moment ds p c => exact absurd trivial (hl _ rfl)
  | order q moment ds p os => exact ⟨h.status, h.fault, h.completed, h.token, h.phase⟩
  | heeded q moment ds p => exact ⟨h.status, h.fault, h.completed, h.token, h.phase⟩
  | kick q ds p =>
    have hq : q.status ≠ .running := by rw [h.status]; exact hstatus
    have hk : q.kick = q := by
      unfold Queue.kick
      split
      · next hr _ => exact absurd hr hq
      · rfl
    rw [hk]
    exact ⟨h.status, h.fault, h.completed, h.token, h.phase⟩
  | advance q hp => exact halted_advance hstatus hm h

theorem Passes.halted (hstatus : status ≠ .running) (h : Passes Uncalled m n) (hm : Sound m)
    (ha : Halted status done m) : Halted status done n :=
  h.keeps hm ha (fun hb ha hs hl => ha.step hstatus hb hs hl)

/-- A stop, or a pause of a running queue, is final until the next call, whoever makes it and at
whatever moment, if the outcome of the line in execution is not settled by then: the status stays,
there is no fault and no further result, and a line still in execution is cancelled and will be
given up. -/
theorem halted_until_called {t : Interpreter} {e : Engine} {m n r : Instant} {c : Call}
    {status : Status} (hm : Passes Any (ofQueue (.make t e)) m)
    (hs : Step m (some (.call c)) n) (hc : c.halt? m.queue.status = some status)
    (hp : m.phase.IsOpen) (hr : Passes Uncalled n r) :
    r.queue.status = status ∧ r.queue.fault = none ∧
      r.queue.completed = m.queue.completed ∧
      (∀ k, r.queue.token = some k → k.isCancelled) ∧
      (r.IsQuiet → r.queue.token.isSome → ∃ line i job time,
        r.queue.worker = .asleep line i job time) := by
  have hsound := hm.sound (sound_make t e)
  have hn := step_call hs
  have hhalted : Halted status m.queue.completed n := by
    rw [hn]
    exact halted_call hm.faultless hp hc
  have hrs := hr.sound (hsound.step hs)
  have hh := hr.halted (Call.halt?_ne_running hc) (hsound.step hs) hhalted
  refine ⟨hh.status, hh.fault, hh.completed, hh.token, fun hq ht => ?_⟩
  unfold Sound at hrs
  rw [hq.phase] at hrs
  have hparked : r.queue.IsParked := hrs
  unfold Queue.IsParked at hparked
  split at hparked
  · rw [hparked] at ht; cases ht
  · rw [hparked] at ht; cases ht
  · exact hparked.elim
  · next line i job time hw => exact ⟨line, i, job, time, hw⟩

/-- A stop in the middle of a turn. -/
theorem halted_until_called_corridor :
    let s := (Queue.make (.make .standard []) .corridor).after
      [.call (.run [.text "TURN_LEFT"]), .work]
    let q := (s.turn (.call .stop)).turn .work
    s.status = .running ∧ q.status = .idle ∧ q.fault = none ∧ q.completed = #[] := by
  intro s q
  have hm : Passes Any (ofQueue (.make (.make .standard []) .corridor)) (ofQueue s) :=
    (after_passes (allows_make _ _) (K := fun _ => False) (by simp)).mono (fun _ _ _ => trivial)
  have hs : Queue.Allows (fun _ => False) s := allows_after (allows_make _ _) (by simp)
  have hstopped : Queue.Allows (fun _ => False) (s.turn (.call .stop)) := allows_turn hs (by simp)
  have hstop : Passes Uncalled (begin s (.call .stop)) (ofQueue (s.turn (.call .stop))) :=
    (passes_begin hs _).mono (fun _ _ h t ht => by rw [h.silent] at ht; cases ht)
  have hwork : Passes Uncalled (ofQueue (s.turn (.call .stop))) (ofQueue q) := by
    refine (turn_passes hstopped .work).mono (fun _ _ h t ht => ?_)
    rw [List.mem_singleton.mp (h.silent ht).2]
    exact id
  have hrunning : s.status = .running := by decide +kernel
  have hnone : s.completed = #[] := by decide +kernel
  obtain ⟨hidle, hfault, hdone, _⟩ := halted_until_called hm (.turn s (.call .stop)) rfl trivial
    (hstop.trans hwork)
  exact ⟨hrunning, hidle, hfault, hdone.trans hnone⟩

/-- A line that cannot be read fails, though a stop has cancelled it as it was announced. -/
theorem stop_overruled (q : Queue) {line : Line} {f : Fault}
    (h : Instruction.parse line.plain = .error f) :
    ∃ r, Passes Uncalled (call q [.heed .status] (.executing line) .stop) r ∧
      r.queue.status = .error ∧ r.queue.fault = some f := by
  let s := ((q.renew "stopped" []).shift .idle).record
    (.state ((q.renew "stopped" []).shift .idle).snapshot)
  have hown {a b : Instant} (hs : Step a none b) : Passes Uncalled a b :=
    .single hs (fun _ ht => by cases ht)
  have hpass : Passes Uncalled (call q [.heed .status] (.executing line) .stop)
      (execute s line) :=
    ((hown (.heeded s .status _ _)).trans (hown (.heeded s .status _ _))).trans
      (hown (.advance s (by simp)))
  have hread : execute s line = fail (s.wonder line f) f := by
    have hne := Instruction.parse_ne_cancelled line.plain
    unfold execute
    rw [Interpreter.openLine_unread h]
    change stumble s line f = _
    cases f with
    | cancelled reason => exact absurd h (hne reason)
    | _ => rfl
  rw [hread] at hpass
  obtain ⟨a, he⟩ := fail_eq (s.wonder line f) f
  rw [he] at hpass
  exact ⟨_, hpass, rfl, rfl⟩

/-- An observer stops the queue as a line that cannot be read is announced, and nobody makes another
call: the queue ends with a fault. -/
theorem stop_overruled_corridor : ∃ m n r : Instant,
    Passes Any (ofQueue (.make (.make .standard []) .corridor)) m ∧
      m.phase = .executing (.text "FLY") ∧ Step m (some (.call .stop)) n ∧ Passes Uncalled n r ∧
      r.queue.status = .error ∧ r.queue.fault.isSome := by
  let s := (Queue.make (.make .standard []) .corridor).after [.call (.run [.text "FLY"])]
  have hs : Passes Any (ofQueue (.make (.make .standard []) .corridor)) (ofQueue s) :=
    (after_passes (K := fun _ => True) (allows_make _ _) (by simp)).mono
      (fun _ _ _ => trivial)
  have hwork := (hs.step (.turn s .work) trivial).step
    (.advance { s with worker := .busy } (p := .taking) (by simp)) trivial
  obtain ⟨f, hf⟩ : ∃ f, Instruction.parse (Json.Value.text "FLY").plain = .error f := ⟨_, rfl⟩
  obtain ⟨r, hr, hstatus, hfault⟩ := stop_overruled _ hf
  exact ⟨_, _, r, hwork, rfl, .answer _ .status [] _ .stop, hr, hstatus, by rw [hfault]; rfl⟩

end Instant

end Courier
