import Courier.Proofs.Interpreter.Opening
import Courier.Proofs.Queue.Reachable
import Courier.Proofs.Queue.Spell

namespace Courier

namespace Action

variable {m : MotionSettings} {w : World} {s : Stance} {seconds : Number} {b : Activity}

theorem rest_turn {left : Bool} (h : (begin m w s (.turn left)).next = .pause seconds b) :
    rest m b = glideLength m := by
  simp only [begin, glide] at h
  split at h
  · cases h
  · rw [pause_next h]
    simp only [rest]
    omega

theorem rest_squash {taking : Bool} (h : (squash m s taking).next = .pause seconds b) :
    rest m b = squashLength m := by
  unfold squash at h
  split at h
  · cases h
  · cases h
  · rw [pause_next h]
    simp only [rest]
    omega

theorem rest_move_lt {backward : Bool} {n : Nat}
    (h : (begin m w s (.move backward n)).next = .pause seconds b) :
    rest m b < (n+1)*(glideLength m + 2) := by
  have hr := rest_stride_lt h
  refine Nat.lt_of_lt_of_le hr (Nat.mul_le_mul_right _ ?_)
  change (max 1 (n : Int)).toNat ≤ n+1
  omega

/-- A bound on the pauses of the action that a command asks for. -/
theorem rest_begin_lt {c : Command} {a : Action} (hc : c.action? = some a)
    (h : (a.begin m w s).next = .pause seconds b) :
    rest m b + 1 < (c.count?.getD 1 + 1)*(glideLength m + 2) + squashLength m + 2 := by
  have hsquash (hs : rest m b = squashLength m) :
      rest m b + 1 < (1+1)*(glideLength m + 2) + squashLength m + 2 := by omega
  cases c with
  | moveForward n =>
    cases hc
    have hm := rest_move_lt h
    simp only [Command.count?, Option.getD_some]
    omega
  | moveBackward n =>
    cases hc
    have hm := rest_move_lt h
    simp only [Command.count?, Option.getD_some]
    omega
  | turnLeft =>
    cases hc
    have ht := rest_turn h
    simp only [Command.count?, Option.getD_none]
    omega
  | turnRight =>
    cases hc
    have ht := rest_turn h
    simp only [Command.count?, Option.getD_none]
    omega
  | pickup =>
    cases hc
    simp only [begin] at h
    split at h
    · cases h
    · split at h
      · exact hsquash (rest_squash h)
      · cases h
  | dropoff =>
    cases hc
    simp only [begin] at h
    split at h
    · split at h
      · exact hsquash (rest_squash h)
      · cases h
    · cases h
  | wait n => cases hc
  | branch name => cases hc
  | endBranch => cases hc

end Action

/-- A bound on the pauses of a job from one on. -/
def Job.pauses (m : MotionSettings) : Job → Nat
  | .act a => Action.rest m a + 1
  | .wait => 1

namespace Spell

theorem resting_pause {seconds u : Number} {i j : Instruction} {job k : Job}
    (h : resting seconds i job = .pause u j k) : u = seconds ∧ j = i ∧ k = job := by
  unfold resting at h
  split at h
  · cases h
    exact ⟨rfl, rfl, rfl⟩
  · cases h

theorem ofStretch_pause {branches : List Bool} {i j : Instruction} {s : Stretch} {u : Number}
    {job : Job} (h : (ofStretch branches i s).upshot = .pause u j job) :
    ∃ a, s.next = .pause u a ∧ j = i ∧ job = .act a := by
  unfold ofStretch at h
  cases hn : s.next with
  | pause seconds a =>
    rw [hn] at h
    obtain ⟨rfl, rfl, rfl⟩ := resting_pause h
    exact ⟨a, rfl, rfl, rfl⟩
  | done a => rw [hn] at h; cases h
  | failed f => rw [hn] at h; cases h

/-- A pause of a line leaves fewer of them than the line has. -/
theorem first_pauses_lt {t : Interpreter} {e : Engine} {line : Line} {seconds : Number}
    {i : Instruction} {job : Job} (h : (first t e line).upshot = .pause seconds i job) :
    job.pauses e.settings < Queue.linePauses e.settings line := by
  unfold first ofOpening at h
  cases hr : (opening t e line).result with
  | error f => rw [hr] at h; cases h
  | ok r =>
    obtain ⟨j, d, branches⟩ := r
    obtain ⟨hp, hd⟩ := Interpreter.openLine_ok hr
    rw [hr] at h
    unfold Queue.linePauses
    rw [hp]
    cases d with
    | finished s => cases h
    | act a =>
      obtain ⟨b, hb, _, rfl⟩ := ofStretch_pause h
      rcases hd with ⟨r, hr⟩ | ⟨hd, _⟩
      · cases hr
      · exact Action.rest_begin_lt (Interpreter.demand_act.mp hd) hb
    | wait u =>
      obtain ⟨_, _, rfl⟩ := resting_pause h
      simp only [Job.pauses]
      omega

theorem next_pauses_lt {t : Interpreter} {e : Engine} {i j : Instruction} {job k : Job}
    {seconds : Number} (h : (next t e i job).upshot = .pause seconds j k) :
    k.pauses e.settings < job.pauses e.settings := by
  cases job with
  | act a =>
    obtain ⟨b, hb, _, rfl⟩ := ofStretch_pause h
    exact Nat.succ_lt_succ (Action.rest_resume_lt hb)
  | wait => cases h

end Spell

def Worker.isAlive : Worker → Bool
  | fresh => true
  | asleep .. => true
  | _ => false

namespace Queue

variable {m : MotionSettings} {q r : Queue}

def pendingPauses (m : MotionSettings) (q : Queue) : Nat := linesPauses m q.pending

theorem pauses_fresh (ho : q.orders = []) (hw : q.worker = .fresh) :
    q.pauses = q.pendingPauses q.engine.settings + 2 := by
  simp [pauses, backlog_quiet ho, hw, pendingPauses]

theorem pauses_asleep (ho : q.orders = []) {line : Line} {i : Instruction} {job : Job}
    {wake : Option Binary64} (hw : q.worker = .asleep line i job wake) :
    q.pauses = job.pauses q.engine.settings + q.pendingPauses q.engine.settings + 2 := by
  cases job <;> simp [pauses, backlog_quiet ho, hw, pendingPauses, Job.pauses]

/-- A queue that has ended or goes on with fewer pauses than a bound. -/
structure Within (m : MotionSettings) (bound : Nat) (q : Queue) : Prop where
  orders : q.orders = []
  settled : q.settled = decide (q.status ≠ .running)
  settings : q.engine.settings = m
  alive : q.status = .running → q.worker.isAlive ∧ q.pauses < bound

/-- A queue between two lines, with so many pauses in the lines pending. -/
structure Ahead (m : MotionSettings) (bound : Nat) (q : Queue) : Prop where
  orders : q.orders = []
  settled : q.settled = decide (q.status ≠ .running)
  settings : q.engine.settings = m
  pauses : q.pendingPauses m ≤ bound

theorem Within.mono {a b : Nat} (h : Within m a q) (hab : a ≤ b) : Within m b q where
  orders := h.orders
  settled := h.settled
  settings := h.settings
  alive hs := by
    obtain ⟨halive, hlt⟩ := h.alive hs
    exact ⟨halive, Nat.lt_of_lt_of_le hlt hab⟩

theorem Ahead.mono {a b : Nat} (h : Ahead m a q) (hab : a ≤ b) : Ahead m b q :=
  ⟨h.orders, h.settled, h.settings, Nat.le_trans h.pauses hab⟩

/-- A spell leads to the next line or to a later pause. -/
theorem enact_within (ho : q.orders = []) (hset : q.settled = decide (q.status ≠ .running))
    (hm : q.engine.settings = m) (line : Line) {x : Spell}
    {n : Nat} (hn : ∀ seconds i job, x.upshot = .pause seconds i job → job.pauses m < n) :
    ((q.enact line x).2 = true → Ahead m (q.pendingPauses m) (q.enact line x).1) ∧
      ((q.enact line x).2 = false →
        Within m (n + q.pendingPauses m + 2) (q.enact line x).1) := by
  obtain ⟨k, a, _, he⟩ := perform_quiet ho x
  have hp : (q.perform x).orders = [] := by rw [he]; exact ho
  have hs : (q.perform x).engine.settings = m := by rw [he]; simpa using hm
  have hpend : (q.perform x).pending = q.pending := by rw [he]
  have hsp : (q.perform x).settled = decide ((q.perform x).status ≠ .running) := by
    rw [he]
    exact hset
  unfold enact
  cases hu : x.upshot with
  | pause seconds i job =>
    refine ⟨by simp, fun _ => ⟨hp, hsp, hs, fun _ => ⟨rfl, ?_⟩⟩⟩
    rw [pauses_asleep (by exact hp) rfl]
    have hj := hn seconds i job hu
    dsimp only
    rw [hs]
    simp only [pendingPauses, hpend]
    omega
  | result s =>
    dsimp only
    rw [complete_quiet hp]
    refine ⟨fun _ => ⟨hp, hsp, hs, ?_⟩, by simp⟩
    simp [pendingPauses, hpend]
  | fault f =>
    dsimp only
    by_cases hf : ∃ reason, f = .cancelled reason
    · obtain ⟨reason, rfl⟩ := hf
      obtain ⟨b, _, hb⟩ := abandon_quiet hp line
      rw [stumble_cancelled, hb]
      refine ⟨fun _ => ⟨hp, hsp, hs, ?_⟩, by simp⟩
      simp [pendingPauses, hpend]
    · obtain ⟨b, _, hb⟩ := stumble_quiet hp line (fun reason hr => hf ⟨reason, hr⟩)
      rw [hb]
      exact ⟨by simp, fun _ => ⟨hp, rfl, hs, by simp⟩⟩

theorem takeAll_within {n : Nat} (h : Ahead m n q) : Within m (n+2) q.takeAll := by
  unfold takeAll
  refine takeLines_induction (I := Ahead m n) (P := Within m (n+2)) (fun q hq => hq.orders)
    ?_ ?_ ?_ h (by rw [backlog_quiet h.orders]; exact Nat.lt_succ_self _)
  · intro q hq hs
    exact ⟨hq.orders, hq.settled, hq.settings, fun h => absurd h hs⟩
  · intro q hq _ _
    rcases finish_quiet hq.orders with ⟨f, x, _, _, he⟩ | ⟨x, _, _, he⟩
    · rw [he]
      exact ⟨hq.orders, rfl, hq.settings, by simp⟩
    · rw [he]
      exact ⟨hq.orders, rfl, hq.settings, by simp⟩
  · intro q line pending hq _ hp r
    have hd := dispatch_quiet hq.orders line pending
    have ho : (q.dispatch line pending).orders = [] := by rw [hd]; exact hq.orders
    have hk : (q.dispatch line pending).token = some .fresh := by rw [hd]
    have hset : (q.dispatch line pending).settled =
        decide ((q.dispatch line pending).status ≠ .running) := by
      rw [hd]
      exact hq.settled
    have hs : (q.dispatch line pending).engine.settings = m := by rw [hd]; exact hq.settings
    obtain ⟨a, _, hh⟩ := heed_quiet (q := q.dispatch line pending)
      (Spell.opening (q.dispatch line pending).interpreter (q.dispatch line pending).engine line)
    have hx := enact_within (q := { q.dispatch line pending with trace := a }) ho hset hs line
      (x := .first (q.dispatch line pending).interpreter (q.dispatch line pending).engine line)
      (n := linePauses m line) (fun seconds i job hu => by
        have hlt := Spell.first_pauses_lt hu
        rwa [hs] at hlt)
    have hpend : ({ q.dispatch line pending with trace := a } : Queue).pendingPauses m =
        linesPauses m pending := by
      rw [hd]
      rfl
    have hsum : linePauses m line + linesPauses m pending ≤ n := by
      have hle := hq.pauses
      simpa [pendingPauses, hp, linesPauses] using hle
    rw [execute_eq ho hk, hh]
    rw [hpend] at hx
    constructor
    · intro hr
      have hg := hx.1 (by rw [hr])
      rw [hr] at hg
      exact hg.mono (by omega)
    · intro hr
      have hg := hx.2 (by rw [hr])
      rw [hr] at hg
      exact hg.mono (by omega)

theorem tokenCheck_error {f : Fault} (h : q.tokenCheck = .error f) :
    ∃ token, q.token = some token ∧ token.isCancelled := by
  unfold tokenCheck at h
  cases ht : q.token with
  | none => rw [ht] at h; cases h
  | some token =>
    rw [ht] at h
    refine ⟨token, rfl, ?_⟩
    unfold Token.isCancelled
    cases hr : token.reason with
    | none =>
      simp [Token.check, hr] at h
    | some r => rfl

/-- A turn of the worker ends the run or uses up pauses. -/
theorem work_within (ho : q.orders = []) (hset : q.settled = decide (q.status ≠ .running))
    (hw : q.worker.isAlive) :
    Within q.engine.settings q.pauses q.work := by
  cases hworker : q.worker with
  | absent => rw [hworker] at hw; cases hw
  | busy => rw [hworker] at hw; cases hw
  | fresh =>
    rw [pauses_fresh ho hworker, work_fresh hworker]
    exact takeAll_within (q := { q with worker := .busy }) ⟨ho, hset, rfl, Nat.le_refl _⟩
  | asleep line i job wake =>
    rw [pauses_asleep ho hworker, work_asleep hworker]
    let b : Queue := { q with worker := .busy }
    have hx : ((b.wakeUp line i job).2 = true →
          Ahead q.engine.settings (q.pendingPauses q.engine.settings) (b.wakeUp line i job).1) ∧
        ((b.wakeUp line i job).2 = false → Within q.engine.settings
          (job.pauses q.engine.settings + q.pendingPauses q.engine.settings + 2)
          (b.wakeUp line i job).1) := by
      cases hk : b.tokenCheck with
      | ok u =>
        rw [wakeUp_eq (q := b) ho hk]
        exact enact_within (q := b) ho hset rfl line (fun seconds j k hu => Spell.next_pauses_lt hu)
      | error f =>
        obtain ⟨token, ht, hc⟩ := tokenCheck_error hk
        obtain ⟨shown, n, x, _, he⟩ := wakeUp_dropped (q := b) ho ht hc line i job
        rw [he]
        exact ⟨fun _ => ⟨ho, hset, rfl, Nat.le_refl _⟩, by simp⟩
    split
    · next hg => exact (takeAll_within (hx.1 hg)).mono (by omega)
    · next hg => exact hx.2 (by simpa using hg)

/-- A run to its end, with any times at its pauses. -/
inductive Settles : Queue → Queue → Prop
  | done {q : Queue} (h : q.status ≠ .running) : Settles q q
  | work {q r : Queue} (time : Binary64) (h : q.status = .running)
      (hr : Settles ({ q with now := time } : Queue).work r) : Settles q r

theorem pauses_pos (q : Queue) : 2 ≤ q.pauses := by
  unfold pauses
  exact Nat.le_add_left 2 _

theorem settleWithin_succ (n : Nat) (hs : q.settled = false) (hw : q.worker.isAlive) :
    ∃ time, settleWithin (n+1) q = settleWithin n ({ q with now := time } : Queue).work := by
  rw [settleWithin, if_neg (by simp [hs])]
  by_cases hc : q.canWork
  · exact ⟨q.now, by rw [if_pos hc]⟩
  · rw [if_neg hc]
    cases hworker : q.worker with
    | absent => rw [hworker] at hw; cases hw
    | busy => rw [hworker] at hw; cases hw
    | fresh => simp [canWork, hworker] at hc
    | asleep line i job wake =>
      cases wake with
      | none => simp [canWork, hworker] at hc
      | some wake => exact ⟨wake, by simp [wakeTime?, hworker]⟩

theorem settleWithin_settles {n : Nat} (hn : 0 < n) (ho : q.orders = [])
    (hset : q.settled = decide (q.status ≠ .running))
    (hw : q.status = .running → q.worker.isAlive ∧ q.pauses ≤ n) :
    ∃ r, settleWithin n q = (true, r) ∧ Settles q r := by
  induction n generalizing q with
  | zero => omega
  | succ n ih =>
    by_cases hs : q.status = .running
    · obtain ⟨halive, hle⟩ := hw hs
      obtain ⟨time, ht⟩ := settleWithin_succ n (by simp [hset, hs]) halive
      have hwork := work_within (q := { q with now := time }) ho hset halive
      have hp : ({ q with now := time } : Queue).pauses = q.pauses := rfl
      have hpos := q.pauses_pos
      have hnext : ({ q with now := time } : Queue).work.status = .running →
          ({ q with now := time } : Queue).work.worker.isAlive ∧
            ({ q with now := time } : Queue).work.pauses ≤ n := by
        intro hrun
        obtain ⟨ha, hlt⟩ := hwork.alive hrun
        exact ⟨ha, by omega⟩
      obtain ⟨r, hr, hsettles⟩ := ih (by omega) hwork.orders hwork.settled hnext
      exact ⟨r, ht.trans hr, .work time hs hsettles⟩
    · exact ⟨q, by rw [settleWithin, if_pos (by simp [hset, hs])], .done hs⟩

/-- A queue with a worker settles. -/
theorem settle_settles (ho : q.orders = []) (hset : q.settled = decide (q.status ≠ .running))
    (hw : q.status = .running → q.worker.isAlive) :
    q.settle.1 = true ∧ Settles q q.settle.2 := by
  have hpos := q.pauses_pos
  obtain ⟨r, hr, hset⟩ := settleWithin_settles (q := q) (n := q.pauses) (by omega) ho hset
    (fun h => ⟨hw h, Nat.le_refl _⟩)
  rw [settle, hr]
  exact ⟨rfl, hset⟩

theorem Settles.status_ne (h : Settles q r) : r.status ≠ .running := by
  induction h with
  | done h => exact h
  | work time h hr ih => exact ih

end Queue

end Courier
