import Courier.Proofs.Queue.Ledger
import Courier.Proofs.Queue.Settlement

namespace Courier

theorem Spell.branches_next (t : Interpreter) (e : Engine) (i : Instruction) (job : Job) :
    (next t e i job).branches = t.branches := by
  cases job <;> rfl

/-- A turn that leaves no order behind. -/
def Turn.IsPlain (t : Turn) : Prop := ∀ o, t ≠ .leave o

/-- A call that starts the queue anew. -/
def Turn.IsAnew : Turn → Prop
  | .call (.run _) => True
  | .given isRun _ => isRun
  | .call .stop => True
  | _ => False

namespace Queue

/-- What the status stands for. -/
structure Coherent (q : Queue) : Prop where
  orders : q.orders = []
  fault : q.fault.isSome ↔ q.status = .error
  idle : q.status = .idle → q.current = none ∧ q.interpreter.branches = []
  settled : q.settled = decide (q.status ≠ .running)

/-- The worker between two turns. -/
def AtRest (q : Queue) : Prop :=
  match q.worker with
  | .absent => q.token = none ∧ (q.status ≠ .error → q.current = none)
  | .fresh => q.token = none ∧ q.status ≠ .error ∧ q.current = none
  | .busy => False
  | .asleep _ _ _ _ => q.token.isSome ∧ q.status ≠ .error

structure Orderly (q : Queue) : Prop extends Coherent q where
  rest : q.AtRest

/-- The worker between two lines. -/
structure Free (q : Queue) : Prop extends Coherent q where
  between : q.IsBetween
  sound : q.status ≠ .error

/-- An operation of the worker after which it goes on with the next line or rests. -/
structure Proceeds (r : Queue × Bool) : Prop where
  goes : r.2 = true → Free r.1
  rests : r.2 = false → Orderly r.1 ∧ r.1.worker ≠ .fresh

section Order

variable {q r : Queue}

theorem Coherent.same (h : Coherent q) (ho : r.orders = []) (hs : r.status = q.status)
    (hf : r.fault = q.fault) (hset : r.settled = q.settled)
    (hi : q.status = .idle → r.current = none ∧ r.interpreter.branches = []) : Coherent r where
  orders := ho
  fault := by rw [hf, hs]; exact h.fault
  idle hr := hi (hs.symm.trans hr)
  settled := by rw [hset, hs]; exact h.settled

theorem Coherent.fault_eq_none (h : Coherent q) (hs : q.status ≠ .error) : q.fault = none := by
  cases hf : q.fault with
  | none => rfl
  | some f => exact absurd (h.fault.mp (by rw [hf]; rfl)) hs

theorem proceeds_stumble (h : Coherent q) (hs : q.status ≠ .error) (line : Line) (f : Fault) :
    Proceeds (q.stumble line f) := by
  by_cases hf : ∃ reason, f = .cancelled reason
  · obtain ⟨reason, rfl⟩ := hf
    obtain ⟨a, _, he⟩ := abandon_quiet h.orders line
    rw [stumble_cancelled, he]
    have hc := h.same (r := { q with
      token := none, current := none, trace := a.push (.state ⟨q.pending, none, q.status⟩) })
      h.orders rfl rfl rfl (fun hi => ⟨rfl, (h.idle hi).2⟩)
    exact ⟨fun _ => ⟨hc, ⟨rfl, rfl⟩, hs⟩, by simp⟩
  · obtain ⟨a, _, he⟩ := stumble_quiet h.orders line (fun reason hr => hf ⟨reason, hr⟩)
    rw [he]
    refine ⟨by simp, fun _ => ⟨⟨⟨h.orders, by simp, by simp, rfl⟩, ?_⟩, by simp⟩⟩
    exact ⟨rfl, fun hn => absurd rfl hn⟩

/-- An idle queue stays without open branches, though a cancelled line may still sleep. -/
theorem proceeds_enact (h : Coherent q) (hs : q.status ≠ .error) (ht : q.token.isSome)
    (line : Line) {x : Spell} (hb : q.status = .idle → x.branches = []) :
    Proceeds (q.enact line x) := by
  obtain ⟨n, a, _, he⟩ := perform_quiet h.orders x
  have hc : Coherent (q.perform x) := by
    rw [he]
    exact h.same h.orders rfl rfl rfl (fun hi => ⟨(h.idle hi).1, hb hi⟩)
  have hsp : (q.perform x).status ≠ .error := by rw [he]; exact hs
  have htp : (q.perform x).token.isSome := by rw [he]; exact ht
  unfold enact
  cases x.upshot with
  | pause seconds i job =>
    refine ⟨by simp, fun _ => ⟨⟨?_, htp, hsp⟩, by simp⟩⟩
    exact hc.same hc.orders rfl rfl rfl hc.idle
  | result s =>
    dsimp only
    rw [complete_quiet hc.orders]
    refine ⟨fun _ => ⟨?_, ⟨rfl, rfl⟩, hsp⟩, by simp⟩
    exact hc.same hc.orders rfl rfl rfl (fun hi => ⟨rfl, (hc.idle hi).2⟩)
  | fault f => exact proceeds_stumble hc hsp line f

theorem proceeds_execute (h : Coherent q) (hs : q.status = .running) (ht : q.token = some .fresh)
    (line : Line) : Proceeds (q.execute line) := by
  obtain ⟨a, _, he⟩ := heed_quiet (q := q) (Spell.opening q.interpreter q.engine line)
  rw [execute_eq h.orders ht, he]
  have hc : Coherent ({ q with trace := a } : Queue) := h.same h.orders rfl rfl rfl h.idle
  exact proceeds_enact hc (by simp [hs]) (by simp [ht]) line (by simp [hs])

theorem proceeds_wakeUp (h : Coherent q) (hs : q.status ≠ .error) (ht : q.token.isSome)
    (line : Line) (i : Instruction) (job : Job) : Proceeds (q.wakeUp line i job) := by
  cases hk : q.tokenCheck with
  | ok u =>
    rw [wakeUp_eq h.orders hk]
    exact proceeds_enact h hs ht line
      (fun hi => (Spell.branches_next _ _ _ _).trans (h.idle hi).2)
  | error f =>
    obtain ⟨token, htok, hcan⟩ := tokenCheck_error hk
    obtain ⟨shown, n, a, _, he⟩ := wakeUp_dropped h.orders htok hcan line i job
    rw [he]
    refine ⟨fun _ => ⟨?_, ⟨rfl, rfl⟩, hs⟩, by simp⟩
    exact h.same h.orders rfl rfl rfl (fun hi => ⟨rfl, (h.idle hi).2⟩)

theorem orderly_finish (h : Free q) : Orderly q.finish ∧ q.finish.worker ≠ .fresh := by
  rcases finish_quiet h.orders with ⟨f, a, _, _, he⟩ | ⟨a, hb, _, he⟩
  · rw [he]
    refine ⟨⟨⟨h.orders, by simp, by simp, rfl⟩, rfl, fun hn => absurd rfl hn⟩, by simp⟩
  · have hbranches : q.interpreter.branches = [] := by
      unfold Interpreter.checkBalanced at hb
      split at hb
      · next hd => exact List.isEmpty_iff.mp hd
      · cases hb
    have hf := h.fault_eq_none h.sound
    rw [he]
    refine ⟨⟨⟨h.orders, ?_, fun _ => ⟨h.between.2, hbranches⟩, rfl⟩, ?_⟩, by simp⟩
    · simp [hf]
    · exact ⟨h.between.1, fun _ => h.between.2⟩

/-- Lines are taken one after another, until the worker rests. -/
theorem orderly_takeAll (h : Free q) : Orderly q.takeAll ∧ q.takeAll.worker ≠ .fresh := by
  unfold takeAll
  refine takeLines_induction (I := Free) (P := fun r => Orderly r ∧ r.worker ≠ .fresh)
    (fun r hr => hr.orders) ?_ (fun r hr _ _ => orderly_finish hr) ?_ h
    (by rw [backlog_quiet h.orders]; exact Nat.lt_succ_self _)
  · intro r hr _
    have hc := hr.toCoherent.same (r := { r with worker := .absent }) hr.orders rfl rfl rfl hr.idle
    exact ⟨⟨hc, hr.between.1, fun _ => hr.between.2⟩, by simp⟩
  · intro r line pending hr hs hp x
    have hd := dispatch_quiet hr.orders line pending
    have hc : Coherent (r.dispatch line pending) := by
      rw [hd]
      exact hr.toCoherent.same hr.orders rfl rfl rfl (by simp [hs])
    have hx : Proceeds ((r.dispatch line pending).execute line) :=
      proceeds_execute hc (by rw [hd]; exact hs) (by rw [hd]) line
    constructor
    · intro he
      rw [he] at hx
      exact hx.goes rfl
    · intro he
      rw [he] at hx
      exact hx.rests rfl

theorem orderly_work (h : Orderly q) : Orderly q.work ∧ q.work.worker ≠ .fresh := by
  have hb : Coherent ({ q with worker := .busy } : Queue) :=
    h.toCoherent.same h.orders rfl rfl rfl h.idle
  have hw := h.rest
  unfold AtRest at hw
  cases hworker : q.worker with
  | absent =>
    rw [work_idle (.inl hworker)]
    exact ⟨h, by simp [hworker]⟩
  | busy => rw [hworker] at hw; exact hw.elim
  | fresh =>
    rw [hworker] at hw
    rw [work_fresh hworker]
    exact orderly_takeAll ⟨hb, ⟨hw.1, hw.2.2⟩, hw.2.1⟩
  | asleep line i job wake =>
    rw [hworker] at hw
    have hx := proceeds_wakeUp hb hw.2 hw.1 line i job
    rw [work_asleep hworker]
    split
    · next hg => exact orderly_takeAll (hx.goes hg)
    · next hg => exact hx.rests (by simpa using hg)

theorem AtRest.same (h : q.AtRest) (hw : r.worker = q.worker) (ht : r.token = q.token)
    (hs : r.status = q.status) (hc : q.current = none → r.current = none) : r.AtRest := by
  unfold AtRest at h ⊢
  rw [hw, ht, hs]
  cases hworker : q.worker with
  | absent => rw [hworker] at h; exact ⟨h.1, fun hn => hc (h.2 hn)⟩
  | fresh => rw [hworker] at h; exact ⟨h.1, h.2.1, hc h.2.2⟩
  | busy => rw [hworker] at h; exact h
  | asleep line i job wake => rw [hworker] at h; exact h

theorem AtRest.cancelInFlight (h : q.AtRest) (reason : String) :
    (q.cancelInFlight reason).AtRest := by
  unfold AtRest Queue.cancelInFlight at *
  cases hworker : q.worker with
  | absent => rw [hworker] at h; exact ⟨by rw [h.1]; rfl, h.2⟩
  | fresh => rw [hworker] at h; exact ⟨by rw [h.1]; rfl, h.2⟩
  | busy => rw [hworker] at h; exact h
  | asleep line i job wake => rw [hworker] at h; exact ⟨by simpa using h.1, h.2⟩

theorem Orderly.cancelInFlight (h : Orderly q) (reason : String) :
    Orderly (q.cancelInFlight reason) :=
  ⟨h.toCoherent.same h.orders rfl rfl rfl h.idle, h.rest.cancelInFlight reason⟩

theorem Orderly.kick (h : Orderly q) : Orderly q.kick := by
  unfold Queue.kick
  split
  · next hs hw =>
    have hr := h.rest
    unfold AtRest at hr
    rw [hw] at hr
    have hc : q.current = none := hr.2 (by simp [hs])
    exact ⟨h.toCoherent.same h.orders rfl rfl rfl h.idle, hr.1, by simp [hs], hc⟩
  · exact h

/-- A queue without a fault takes on any status but error. -/
theorem orderly_become (ho : q.orders = []) (hf : q.fault = none) (hw : q.AtRest)
    {status : Status} (hs : status ≠ .error)
    (hi : status = .idle → q.current = none ∧ q.interpreter.branches = [])
    (hc : q.status = .error → q.current = none) (answer : Call → Queue → Queue) :
    Orderly (q.become answer status) := by
  obtain ⟨a, _, he⟩ := become_quiet ho answer status
  rw [he]
  refine ⟨⟨ho, by simp [hf, hs], hi, rfl⟩, ?_⟩
  unfold AtRest at hw ⊢
  cases hworker : q.worker with
  | absent =>
    rw [hworker] at hw
    refine ⟨hw.1, fun _ => ?_⟩
    by_cases hq : q.status = .error
    · exact hc hq
    · exact hw.2 hq
  | fresh => rw [hworker] at hw; exact ⟨hw.1, hs, hw.2.2⟩
  | busy => rw [hworker] at hw; exact hw
  | asleep line i job wake => rw [hworker] at hw; exact ⟨hw.1, hs⟩

/-- The lines pending do not matter. -/
theorem Orderly.announce (h : Orderly q) (pending : List Line) (answer : Call → Queue → Queue) :
    Orderly (({ q with pending } : Queue).announce answer) := by
  rw [announce_quiet (q := { q with pending }) h.orders]
  exact ⟨h.toCoherent.same h.orders rfl rfl rfl h.idle, h.rest⟩

/-- A run and a stop put everything back. -/
theorem orderly_restart (h : Orderly q) (reason : String) (pending : List Line)
    {status : Status} (hs : status ≠ .error) (answer : Call → Queue → Queue) :
    Orderly (({ q.cancelInFlight reason with
      pending, current := none, fault := none
      interpreter := q.interpreter.reset } : Queue).become answer status) := by
  let r : Queue := { q.cancelInFlight reason with
    pending, current := none, fault := none, interpreter := q.interpreter.reset }
  have hw : r.AtRest := (h.rest.cancelInFlight reason).same rfl rfl rfl (fun _ => rfl)
  exact orderly_become (q := r) h.orders rfl hw hs (fun _ => ⟨rfl, rfl⟩) (fun _ => rfl) answer

theorem orderly_call (h : Orderly q) (c : Call) : Orderly (q.call c) := by
  have hstart (hs : q.status ≠ .error) : Orderly (q.become (fun _ r => r) .running).kick :=
    (orderly_become h.orders (h.fault_eq_none hs) h.rest (by simp) (by simp)
      (fun he => absurd he hs) _).kick
  rw [call_quiet h.orders]
  cases c with
  | run lines => exact (orderly_restart h runReason lines (by simp) _).kick
  | enqueue line => exact (h.announce (q.pending ++ [line]) _).kick
  | setQueue lines => exact (h.announce lines _).kick
  | start =>
    simp only [callVia]
    split
    · next hs => exact hstart (by simp [hs])
    · next hs => exact hstart (by simp [hs])
    · exact h
  | pause =>
    simp only [callVia]
    split
    · next hs =>
      have hc := h.cancelInFlight "paused"
      have hr : (q.cancelInFlight "paused").status = .running := hs
      exact orderly_become hc.orders (hc.fault_eq_none (by simp [hr])) hc.rest (by simp) (by simp)
        (by simp [hr]) _
    · exact h
  | resume =>
    simp only [callVia]
    split
    · next hs => exact hstart (by simp [hs])
    · exact h
  | stop => exact orderly_restart h "stopped" [] (by simp) _

theorem orderly_turn (h : Orderly q) {t : Turn} (ht : t.IsPlain) : Orderly (q.turn t) := by
  cases t with
  | call c => exact orderly_call h c
  | given isRun v =>
    simp only [turn, callWithLines]
    cases v.parts with
    | ok lines => exact orderly_call h _
    | error f =>
      cases isRun with
      | false => exact h
      | true => exact h.cancelInFlight runReason
  | leave o => exact absurd rfl (ht o)
  | register name c => exact ⟨h.toCoherent.same h.orders rfl rfl rfl h.idle, h.rest⟩
  | reset pose =>
    simp only [turn, resetEngine]
    cases q.engine.resetStance pose with
    | error f => exact h
    | ok s =>
      obtain ⟨n, a, _, he⟩ := apply_quiet h.orders (.commit s)
      change Orderly (q.apply (.commit s))
      rw [he]
      exact ⟨h.toCoherent.same h.orders rfl rfl rfl h.idle, h.rest⟩
  | clock time => exact ⟨h.toCoherent.same h.orders rfl rfl rfl h.idle, h.rest⟩
  | work => exact (orderly_work h).1

theorem orderly_after (h : Orderly q) {ts : List Turn} (ht : ∀ t ∈ ts, t.IsPlain) :
    Orderly (q.after ts) := by
  induction ts generalizing q with
  | nil => exact h
  | cons t ts ih => exact ih (orderly_turn h (ht t (by simp))) (fun u hu => ht u (by simp [hu]))

theorem orderly_make {t : Interpreter} (hb : t.branches = []) (e : Engine) :
    Orderly (make t e) :=
  ⟨⟨rfl, by simp [make], fun _ => ⟨rfl, hb⟩, rfl⟩, rfl, fun _ => rfl⟩

/-- A task other than the worker leaves a worker that is there as it is. -/
theorem worker_turn (q : Queue) {t : Turn} (ht : t ≠ .work) :
    (q.turn t).worker = q.worker ∨ q.worker = .absent ∧ (q.turn t).worker = .fresh := by
  cases t with
  | call c => exact (controlled_call c q).worker
  | given isRun v =>
    simp only [turn, callWithLines]
    cases v.parts with
    | ok lines => exact (controlled_call _ q).worker
    | error f =>
      cases isRun with
      | false => exact .inl rfl
      | true => exact .inl rfl
  | leave o => exact .inl rfl
  | register name c => exact .inl rfl
  | reset pose =>
    simp only [turn, resetEngine]
    cases q.engine.resetStance pose with
    | error f => exact .inl rfl
    | ok s => exact (controlled_apply q (.commit s)).worker
  | clock time => exact .inl rfl
  | work => exact absurd rfl ht

/-- After a fault the worker is gone, and no line is in execution. -/
theorem Orderly.failed (h : Orderly q) (hs : q.status = .error) :
    q.worker = .absent ∧ q.token = none := by
  have hr := h.rest
  unfold AtRest at hr
  cases hw : q.worker with
  | absent => rw [hw] at hr; exact ⟨rfl, hr.1⟩
  | fresh => rw [hw] at hr; exact absurd hs hr.2.1
  | busy => rw [hw] at hr; exact hr.elim
  | asleep line i job wake => rw [hw] at hr; exact absurd hs hr.2

/-- A token is there exactly while a line is in execution. -/
theorem Orderly.token_isSome (h : Orderly q) :
    q.token.isSome ↔ ∃ line i job wake, q.worker = .asleep line i job wake := by
  have hr := h.rest
  unfold AtRest at hr
  cases hw : q.worker with
  | absent => rw [hw] at hr; simp [hr.1]
  | fresh => rw [hw] at hr; simp [hr.1]
  | busy => rw [hw] at hr; exact hr.elim
  | asleep line i job wake => rw [hw] at hr; simp [hr.1]

theorem status_kick (q : Queue) : q.kick.status = q.status := by
  unfold kick
  split
  · rfl
  · rfl

theorem status_announce (ho : q.orders = []) (pending : List Line)
    (answer : Call → Queue → Queue) :
    (({ q with pending } : Queue).announce answer).kick.status = q.status := by
  rw [announce_quiet (q := { q with pending }) ho, status_kick]
  rfl

/-- Only what starts the queue anew ends the status error. -/
theorem status_turn (h : Orderly q) (hs : q.status = .error) {t : Turn} (hp : t.IsPlain)
    (ht : ¬t.IsAnew) : (q.turn t).status = .error := by
  cases t with
  | call c =>
    rw [turn, call_quiet h.orders]
    cases c with
    | run lines => exact absurd trivial ht
    | stop => exact absurd trivial ht
    | enqueue line => exact (status_announce h.orders _ _).trans hs
    | setQueue lines => exact (status_announce h.orders _ _).trans hs
    | start => simp only [callVia, hs]
    | pause => simp only [callVia, hs]
    | resume => simp only [callVia, hs]
  | given isRun v =>
    cases isRun with
    | true => exact absurd rfl ht
    | false =>
      simp only [turn, callWithLines]
      cases v.parts with
      | error f => exact hs
      | ok lines =>
        change (q.call (.setQueue lines)).status = .error
        rw [call_quiet h.orders]
        exact (status_announce h.orders _ _).trans hs
  | leave o => exact absurd rfl (hp o)
  | register name c => exact hs
  | reset pose =>
    simp only [turn, resetEngine]
    cases q.engine.resetStance pose with
    | error f => exact hs
    | ok s =>
      obtain ⟨n, a, _, he⟩ := apply_quiet h.orders (.commit s)
      change (q.apply (.commit s)).status = .error
      rw [he]
      exact hs
  | clock time => exact hs
  | work =>
    rw [turn, work_idle (.inl (h.failed hs).1)]
    exact hs

/-- In every state between two turns a fault stands for the status error, and the settled flag for
a status other than running; an idle queue has neither a current line nor open branches; a token is
there while the worker sleeps in a line, and neither is there after a fault. A turn makes a worker
only where there is none, and only what starts the queue anew ends the status error. -/
theorem stays_orderly {t : Interpreter} (hb : t.branches = []) (e : Engine) {ts : List Turn}
    (ht : ∀ u ∈ ts, u.IsPlain) :
    let q := (make t e).after ts
    (q.fault.isSome ↔ q.status = .error) ∧
    (q.status = .idle → q.current = none ∧ q.interpreter.branches = []) ∧
    (q.settled = true ↔ q.status ≠ .running) ∧
    (q.token.isSome ↔ ∃ line i job wake, q.worker = .asleep line i job wake) ∧
    (q.status = .error → q.worker = .absent ∧ q.token = none) ∧
    (∀ u : Turn, u.IsPlain → (q.turn u).worker = .fresh →
      q.worker = .absent ∨ q.worker = .fresh ∧ u ≠ .work) ∧
    (∀ u : Turn, u ≠ .work →
      (q.turn u).worker = q.worker ∨ q.worker = .absent ∧ (q.turn u).worker = .fresh) ∧
    (∀ u : Turn, u.IsPlain → q.status = .error → (q.turn u).status ≠ .error → u.IsAnew) := by
  intro q
  have hq : Orderly q := orderly_after (orderly_make hb e) ht
  refine ⟨hq.fault, hq.idle, by simp [hq.settled], hq.token_isSome, hq.failed, ?_,
    fun u hu => worker_turn q hu, ?_⟩
  · intro u _ hfresh
    by_cases hu : u = .work
    · subst hu
      exact absurd hfresh (orderly_work hq).2
    · rcases worker_turn q hu with hw | ⟨hw, _⟩
      · exact .inr ⟨hw ▸ hfresh, hu⟩
      · exact .inl hw
  · intro u hp hs hne
    by_contra hu
    exact hne (status_turn hq hs hp hu)

/-- A run that fails, and calls after it that do not end the fault. -/
theorem stays_orderly_corridor :
    let q := (make (.make .standard []) .corridor).after
      [.call (.run [.text "END_IF"]), .work, .call .pause, .call .start]
    q.status = .error ∧ q.fault.isSome ∧ q.settled = true ∧ q.worker = .absent := by
  intro q
  have hs : q.status = .error := by rfl
  have hn : q.status ≠ .running := by simp [hs]
  have ht : ∀ u ∈ [.call (.run [.text "END_IF"]), .work, .call .pause, .call .start],
      Turn.IsPlain u := by simp [Turn.IsPlain]
  obtain ⟨hf, _, hset, _, hw, _⟩ := stays_orderly (t := .make .standard []) rfl .corridor ht
  exact ⟨hs, hf.mpr hs, hset.mpr hn, (hw hs).1⟩

end Order

end Queue

end Courier
