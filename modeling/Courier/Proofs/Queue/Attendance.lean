import Courier.Proofs.Queue.Passage
import Courier.Proofs.Queue.Posture
import Courier.Proofs.Queue.Settlement

namespace Courier

/-- A call that starts a queue that is not paused. -/
def Call.IsStart : Call → Prop
  | .run _ => True
  | .start => True
  | _ => False

namespace Instant

/-- Nobody starts the queue while its worker announces the end. -/
def Discreet (b : Instant) (l : Option Turn) : Prop :=
  ∀ failed c, b.phase = .leaving failed → l = some (.call c) → ¬c.IsStart

/-- The queue is attended to, or will be by the calls under way; a worker that is leaving has
nothing to attend to. -/
structure Attended (m : Instant) : Prop where
  outside : m.phase.isOutside → m.queue.status = .running →
    m.queue.worker.isAlive ∨ .kick ∈ m.duties
  leaving : ∀ failed, m.phase = .leaving failed →
    m.queue.status = .idle ∨ m.queue.status = .error

variable {F : Fault → Prop} {q r : Queue} {ds es : List Duty} {p : Phase} {line : Line}
  {m n : Instant}

/-- What a call does to the status: it starts the queue and sees to a worker, ends or pauses it, or
leaves it as it was, duties included. -/
theorem status_call (q : Queue) (ds : List Duty) (p : Phase) (c : Call) :
    (call q ds p c).queue.status = .running ∧ .kick ∈ (call q ds p c).duties ∧
        (c.IsStart ∨ q.status = .paused) ∨
      (call q ds p c).queue.status = .idle ∨
      q.status = .running ∧ (call q ds p c).queue.status = .paused ∨
      (call q ds p c).queue.status = q.status ∧ ds ⊆ (call q ds p c).duties := by
  have hsub (d e : Duty) : ds ⊆ d :: e :: ds :=
    fun _ h => List.mem_cons_of_mem _ (List.mem_cons_of_mem _ h)
  cases c with
  | run lines => exact .inl ⟨rfl, by simp [call, announce], .inl trivial⟩
  | enqueue line => exact .inr (.inr (.inr ⟨rfl, hsub _ _⟩))
  | setQueue lines => exact .inr (.inr (.inr ⟨rfl, hsub _ _⟩))
  | start =>
    simp only [call]
    split
    · exact .inl ⟨rfl, by simp [announce], .inl trivial⟩
    · exact .inl ⟨rfl, by simp [announce], .inl trivial⟩
    · exact .inr (.inr (.inr ⟨rfl, List.Subset.refl ds⟩))
  | pause =>
    simp only [call]
    split
    · next hs => exact .inr (.inr (.inl ⟨hs, rfl⟩))
    · exact .inr (.inr (.inr ⟨rfl, List.Subset.refl ds⟩))
  | resume =>
    simp only [call]
    split
    · next hs => exact .inl ⟨rfl, by simp [announce], .inr hs⟩
    · exact .inr (.inr (.inr ⟨rfl, List.Subset.refl ds⟩))
  | stop => exact .inr (.inl rfl)

theorem worker_alive (hc : Queue.Controlled q r) (h : q.worker.isAlive) : r.worker.isAlive := by
  rcases hc.worker with hw | ⟨_, hf⟩
  · rw [hw]; exact h
  · rw [hf]; rfl

/-- A queue that nobody works on has a worker after it was kicked. -/
theorem kick_alive (hq : q.IsParked) (hs : q.status = .running) : q.kick.worker.isAlive := by
  unfold Queue.IsParked at hq
  cases hw : q.worker with
  | absent => rw [Queue.kick_absent hs hw]; rfl
  | fresh => rw [Queue.kick_present (by simp [hw]), hw]; rfl
  | busy => rw [hw] at hq; exact hq.elim
  | asleep line i job time => rw [Queue.kick_present (by simp [hw]), hw]; rfl

theorem attended_inside (ho : m.phase.isOutside = false)
    (hl : ∀ failed, m.phase ≠ .leaving failed) : Attended m :=
  ⟨fun h => by simp [ho] at h, fun failed h => absurd h (hl failed)⟩

theorem attended_outside (hl : ∀ failed, m.phase ≠ .leaving failed)
    (h : m.queue.status = .running → m.queue.worker.isAlive ∨ .kick ∈ m.duties) : Attended m :=
  ⟨fun _ => h, fun failed hp => absurd hp (hl failed)⟩

theorem attended_leaving {failed : Bool} (hp : m.phase = .leaving failed)
    (h : m.queue.status = .idle ∨ m.queue.status = .error) : Attended m :=
  ⟨fun ho => by simp [hp, Phase.isOutside] at ho, fun _ _ => h⟩

theorem isOutside_cons (e : Effect) (fs : List Effect) (s : Sequel) :
    (Phase.showing fs s).isOutside = (Phase.showing (e :: fs) s).isOutside := by
  cases s <;> rfl

theorem isOutside_showing {s : Sequel} {line : Line} (hs : s.IsOf line) (fs : List Effect) :
    (Phase.showing fs s).isOutside = false := by
  cases s with
  | next l i p => rfl
  | stumble l f => rfl
  | rest => exact hs.elim

theorem attended_comes (h : Comes F q line m) : Attended m := by
  cases h with
  | result r => exact attended_inside rfl (by simp [complete])
  | dropped => exact attended_inside rfl (by simp [abandon, announce])
  | failed hf => exact attended_leaving rfl (.inr rfl)
  | pause hb i job time => exact attended_outside (by simp) (fun _ => .inl rfl)
  | shows hb fs hs => exact attended_inside (isOutside_showing hs fs) (by simp)

theorem attended_take (q : Queue) : Attended (take q) := by
  refine take_cases q ?_ ?_ ?_ ?_
  · exact fun hs => attended_outside (by simp) (fun hr => absurd hr hs)
  · exact fun a f _ _ _ => attended_leaving rfl (.inr rfl)
  · exact fun a _ _ _ => attended_leaving rfl (.inl rfl)
  · exact fun line pending _ _ => attended_inside rfl (by simp [announce])

theorem attended_advance (hm : p.Suits q) (h : Attended ⟨q, [], p⟩) : Attended (advance q p) := by
  have halive (ho : p.isOutside) (hs : q.status = .running) : q.worker.isAlive :=
    (h.outside ho hs).resolve_right (by simp)
  refine advance_cases hm ?_ ?_ ?_ ?_ ?_ ?_ ?_ ?_
  · rintro rfl
    exact h
  · exact fun _ => attended_take q
  · exact fun a b line m _ _ hc => attended_comes hc
  · rintro e es s a k ds rfl _
    exact ⟨fun ho hs => .inl (halive (isOutside_cons e es s ▸ ho) hs), by simp⟩
  · rintro rfl
    exact attended_outside (by simp [ofQueue]) (fun hs => .inl (halive rfl hs))
  · exact fun _ => attended_inside rfl (by simp [announce])
  · exact fun line _ => attended_inside rfl (by simp)
  · rintro failed rfl
    refine attended_outside (by simp [ofQueue]) (fun hs => ?_)
    have hq : q.status = .running := hs
    have hl := h.leaving failed rfl
    simp [hq] at hl

/-- A call keeps a queue attended to, unless it starts a queue whose worker is leaving. -/
theorem attended_call (h : Attended ⟨q, ds, p⟩) (c : Call)
    (hc : ∀ failed, p = .leaving failed → ¬c.IsStart) : Attended (call q ds p c) := by
  have hphase := phase_call q ds p c
  have hcases := status_call q ds p c
  have hkeep := controlled_call q ds p c
  generalize call q ds p c = n at hphase hcases hkeep
  refine ⟨fun ho hs => ?_, fun failed hp => ?_⟩
  · rw [hphase] at ho
    rcases hcases with ⟨_, hk, _⟩ | hi | ⟨_, hp⟩ | ⟨hst, hsub⟩
    · exact .inr hk
    · rw [hs] at hi; cases hi
    · rw [hs] at hp; cases hp
    · exact (h.outside ho (hst ▸ hs)).imp (worker_alive hkeep) (fun hk => hsub hk)
  · rw [hphase] at hp
    have hq := h.leaving failed hp
    rcases hcases with ⟨_, _, hstart | hpaused⟩ | hi | ⟨hr, _⟩ | ⟨hst, _⟩
    · exact absurd hstart (hc failed hp)
    · simp [hpaused] at hq
    · exact .inl hi
    · simp [hr] at hq
    · rw [hst]
      exact hq

theorem attended_begin (hq : q.IsParked) (h : Attended (ofQueue q)) (t : Turn) :
    Attended (begin q t) := by
  have hsame {r : Queue} (hw : r.worker = q.worker) (hs : r.status = q.status) :
      Attended (ofQueue r) := by
    refine attended_outside (by simp [ofQueue]) (fun hr => ?_)
    have hk := h.outside rfl (hs ▸ hr)
    exact hw ▸ hk
  refine begin_cases hq t ?_ ?_ ?_ ?_ ?_ ?_ ?_
  · exact fun c _ => attended_call (p := .resting) h c (by simp)
  · exact fun _ => hsame rfl rfl
  · exact fun os time table => hsame rfl rfl
  · exact fun s => ⟨fun _ hs => h.outside rfl hs, by simp⟩
  · exact fun _ => attended_inside rfl (by simp)
  · exact fun line i job time m _ _ _ hc => attended_comes hc
  · exact h

/-- A step leaves the queue attended to. -/
theorem Attended.step {l : Option Turn} (h : Attended m) (hm : Sound m) (hs : Step m l n)
    (hl : Discreet m l) : Attended n := by
  cases hs with
  | turn q t => exact attended_begin hm h t
  | answer q moment ds p c => exact attended_call h c (fun failed hp => hl failed c hp rfl)
  | order q moment ds p os => exact ⟨h.outside, h.leaving⟩
  | heeded q moment ds p => exact ⟨fun ho hs => by simpa using h.outside ho hs, h.leaving⟩
  | kick q ds p =>
    have hstatus : q.kick.status = q.status := by
      obtain ⟨w, hw⟩ := kick_eq q
      rw [hw]
    refine ⟨fun ho hs => .inl (kick_alive ?_ (hstatus ▸ hs)), fun failed hp => ?_⟩
    · exact Phase.Suits.parked hm ho
    · rw [hstatus]
      exact h.leaving failed hp
  | advance q hp => exact attended_advance hm h

theorem Passes.attended (h : Passes Discreet m n) (hm : Sound m) (ha : Attended m) :
    Attended n :=
  h.keeps hm ha (fun hb ha hs hl => ha.step hb hs hl)

theorem attended_make (t : Interpreter) (e : Engine) : Attended (ofQueue (.make t e)) :=
  attended_outside (by simp [ofQueue]) (by simp [ofQueue, Queue.make])

theorem Attended.alive (h : Attended m) (hm : m.IsQuiet) (hs : m.queue.status = .running) :
    m.queue.worker.isAlive := by
  have hk := h.outside (by rw [hm.phase]; rfl) hs
  rw [hm.duties] at hk
  exact hk.resolve_right (by simp)

/-- Whatever calls other tasks and observers make, a queue that runs between two turns has a worker
that is not through: one that will start or one that sleeps in a line. Only a call that starts the
queue while a worker announces its end is excluded. -/
theorem running_attended {t : Interpreter} {e : Engine} {m : Instant}
    (h : Passes Discreet (ofQueue (.make t e)) m) (hm : m.IsQuiet)
    (hs : m.queue.status = .running) : m.queue.worker.isAlive :=
  (h.attended (sound_make t e) (attended_make t e)).alive hm hs

/-- Observers that are told never to start the queue are discreet. -/
theorem Within.discreet {ts : List Turn} {b : Instant} {l : Option Turn}
    (h : Within (¬·.IsStart) ts b l) : Discreet b l := by
  intro failed c hp hl
  rcases h _ hl with ⟨hb, _⟩ | ⟨_, d, hd, he⟩
  · rw [hb.phase] at hp
    cases hp
  · cases he
    exact hd

/-- An observer leaves one more line as soon as the first one is announced. -/
theorem running_attended_corridor :
    let q := (Queue.make (.make .standard []) .corridor).after
      [.leave ⟨⟨.current, .text "TURN_LEFT"⟩, .enqueue (.text "TURN_RIGHT")⟩,
        .call (.run [.text "TURN_LEFT"]), .work]
    q.status = .running ∧ q.pending.length = 1 ∧ q.worker.isAlive := by
  intro q
  have hs : q.status = .running := by decide +kernel
  have hp : Passes (Within (¬·.IsStart) _) (ofQueue (.make (.make .standard []) .corridor))
      (ofQueue q) :=
    after_passes (allows_make _ _) (by simp [Call.IsStart])
  have ha := running_attended (hp.mono (fun _ _ => Within.discreet)) ⟨rfl, rfl⟩ hs
  exact ⟨hs, by decide +kernel, ha⟩

/-- An observer told that the queue is idle runs a line at once. The worker that told it is through,
and no other one has been made: the queue runs, and nobody will take the line. -/
theorem running_deserted : ∃ m : Instant,
    Passes Any (ofQueue (.make (.make .standard []) .corridor)) m ∧ m.IsQuiet ∧
      m.queue.status = .running ∧ m.queue.pending = [.text "TURN_LEFT"] ∧
      m.queue.worker = .absent := by
  have hp : Passes (Within (fun _ => True) _) (ofQueue (.make (.make .standard []) .corridor))
      (ofQueue ((Queue.make (.make .standard []) .corridor).after
        [.leave ⟨⟨.status, .text "idle"⟩, .run [.text "TURN_LEFT"]⟩, .call (.run []), .work])) :=
    after_passes (allows_make _ _) (by simp)
  exact ⟨_, hp.mono (fun _ _ _ => trivial), ⟨rfl, rfl⟩, by rfl, by rfl, by rfl⟩

end Instant

end Courier
