import Courier.Proofs.Queue.Order
import Courier.Proofs.Queue.Passage
import Courier.Proofs.Queue.Posture

namespace Courier

/-- A turn that is meant to start the queue. -/
def Turn.starts : Turn → Bool
  | .call (.run _) => true
  | .call .start => true
  | .call .resume => true
  | .given isRun _ => isRun
  | _ => false

/-- What a wait returns. -/
structure Reply where
  task : Nat
  /-- The queue was started after the task had been released. -/
  overtaken : Bool
  state : Snapshot

/-- The queue, with tasks that wait for it to settle. -/
structure Lobby where
  instant : Instant
  waiting : List Nat
  /-- Tasks that no longer wait and have not had their turn; the queue may have been started. -/
  released : List (Nat × Bool)
  replies : List Reply

namespace Lobby

def ofQueue (q : Queue) : Lobby := ⟨.ofQueue q, [], [], []⟩

/-- The queue goes on to another instant. Once it is settled all tasks that wait are released. -/
def pass (b : Lobby) (l : Option Turn) (n : Instant) : Lobby :=
  let started := l.any Turn.starts && !n.queue.settled
  let released := b.released.map (fun r => (r.1, r.2 || started))
  if n.queue.settled then ⟨n, [], released ++ b.waiting.map (·, false), b.replies⟩
  else ⟨n, b.waiting, released, b.replies⟩

/-- A task begins to wait. A task that runs the queue to its end does so after the run. -/
def wait (b : Lobby) (task : Nat) : Lobby :=
  if b.instant.queue.settled then
    { b with replies := ⟨task, false, b.instant.queue.snapshot⟩ :: b.replies }
  else { b with waiting := b.waiting ++ [task] }

/-- A task that was released has its turn. -/
def reply (b : Lobby) (r : Nat × Bool) : Lobby :=
  { b with
    released := b.released.erase r
    replies := ⟨r.1, r.2, b.instant.queue.snapshot⟩ :: b.replies }

/-- Tasks act between the turns of the queue only. -/
inductive Step (b : Lobby) : Lobby → Prop
  | pass {l : Option Turn} {n : Instant} (h : b.instant.Step l n) : Step b (b.pass l n)
  | wait (h : b.instant.IsQuiet) (task : Nat) : Step b (b.wait task)
  | reply (h : b.instant.IsQuiet) {r : Nat × Bool} (hr : r ∈ b.released) : Step b (b.reply r)

inductive Reaches (b : Lobby) : Lobby → Prop
  | refl : Reaches b b
  | step {c d : Lobby} (h : Reaches b c) (hs : Step c d) : Reaches b d

end Lobby

/-- What those who wait for the queue look at. -/
def Queue.sign (q : Queue) : Status × Bool := (q.status, q.settled)

namespace Instant

/-- What a step may do to the status and to the settled flag. -/
inductive Moves (l : Option Turn) (a : Status × Bool) : Status × Bool → Prop
  | stays : Moves l a a
  | ends {s : Status} (hs : s ≠ .running) : Moves l a (s, true)
  | starts (hl : l.any Turn.starts) : Moves l a (.running, false)

variable {F : Fault → Prop} {l : Option Turn} {q r : Queue} {p : Phase} {line : Line}
  {m n : Instant}

theorem moves_call (q : Queue) (ds : List Duty) (p : Phase) (c : Call) :
    Moves (some (.call c)) q.sign (call q ds p c).queue.sign := by
  cases c with
  | run lines => exact .starts rfl
  | enqueue line => exact .stays
  | setQueue lines => exact .stays
  | start =>
    simp only [call]
    split
    · exact .starts rfl
    · exact .starts rfl
    · exact .stays
  | pause =>
    simp only [call]
    split
    · exact .ends (s := .paused) (by simp)
    · exact .stays
  | resume =>
    simp only [call]
    split
    · exact .starts rfl
    · exact .stays
  | stop => exact .ends (s := .idle) (by simp)

theorem moves_comes (h : Comes F q line m) : Moves l q.sign m.queue.sign := by
  cases h with
  | result r => exact .stays
  | dropped => exact .stays
  | failed hf => exact .ends (s := .error) (by simp)
  | pause hb i job time => exact .stays
  | shows hb es hs => exact .stays

theorem moves_take (q : Queue) : Moves l q.sign (take q).queue.sign := by
  refine take_cases (C := fun m => Moves l q.sign m.queue.sign) q ?_ ?_ ?_ ?_
  · exact fun _ => .stays
  · exact fun a f _ _ _ => .ends (s := .error) (by simp)
  · exact fun a _ _ _ => .ends (s := .idle) (by simp)
  · exact fun line pending _ _ => .stays

theorem moves_advance (hm : p.Suits q) : Moves l q.sign (advance q p).queue.sign := by
  refine advance_cases (C := fun m => Moves l q.sign m.queue.sign) hm ?_ ?_ ?_ ?_ ?_ ?_ ?_ ?_
  · exact fun _ => .stays
  · exact fun _ => moves_take q
  · exact fun a b line m _ _ hc => moves_comes (q := q.noted a b) hc
  · exact fun e es s a k ds _ _ => .stays
  · exact fun _ => .stays
  · exact fun _ => .stays
  · exact fun line _ => .stays
  · exact fun failed _ => .stays

theorem moves_begin (hm : q.IsParked) (t : Turn) :
    Moves (some t) q.sign (begin q t).queue.sign := by
  refine begin_cases (C := fun m => Moves (some t) q.sign m.queue.sign) hm t ?_ ?_ ?_ ?_ ?_ ?_ ?_
  · rintro c (rfl | ⟨isRun, v, rfl, ⟨rfl, lines, rfl⟩ | ⟨rfl, lines, rfl⟩⟩)
    · exact moves_call q [] .resting c
    · exact .starts rfl
    · exact .stays
  · exact fun _ => .stays
  · exact fun os time table => .stays
  · exact fun s => .stays
  · exact fun _ => .stays
  · exact fun line i job time m _ _ _ hc => moves_comes (q := { q with worker := .busy }) hc
  · exact .stays

/-- Only a call that is meant to makes a queue run. -/
theorem moves_step (hm : Sound m) (hs : Step m l n) : Moves l m.queue.sign n.queue.sign := by
  cases hs with
  | turn q t => exact moves_begin hm t
  | answer q moment ds p c => exact moves_call q _ p c
  | order q moment ds p os => exact .stays
  | heeded q moment ds p => exact .stays
  | kick q ds p =>
    obtain ⟨w, hw⟩ := kick_eq q
    rw [hw]
    exact .stays
  | advance q hp => exact moves_advance hm

end Instant

namespace Lobby

variable {b c : Lobby}

/-- The settled flag tells whether the queue runs; no task waits for a settled queue, and the queue
is settled for a task that was released and has not been overtaken. -/
structure Sound (b : Lobby) : Prop where
  instant : b.instant.Sound
  settled : b.instant.queue.settled = decide (b.instant.queue.status ≠ .running)
  waiting : b.instant.queue.settled → b.waiting = []
  released : ∀ task, (task, false) ∈ b.released → b.instant.queue.settled
  replies : ∀ r ∈ b.replies, r.overtaken = false → r.state.status ≠ .running

theorem sound_ofQueue (t : Interpreter) (e : Engine) : Sound (ofQueue (.make t e)) :=
  ⟨Instant.sound_make t e, rfl, fun _ => rfl, by simp [ofQueue], by simp [ofQueue]⟩

theorem Sound.pass (h : b.Sound) {l : Option Turn} {n : Instant} (hs : b.instant.Step l n) :
    (b.pass l n).Sound := by
  have hn := h.instant.step hs
  have hm := Instant.moves_step h.instant hs
  generalize hq : n.queue.sign = x at hm
  have hsettled : n.queue.settled = decide (n.queue.status ≠ .running) := by
    cases hm with
    | stays =>
      obtain ⟨hst, hf⟩ := Prod.mk.inj hq
      rw [hst, hf]
      exact h.settled
    | ends hst =>
      obtain ⟨hst', hf⟩ := Prod.mk.inj hq
      rw [hst', hf]
      simpa using hst
    | starts _ =>
      obtain ⟨hst, hf⟩ := Prod.mk.inj hq
      rw [hst, hf]
      rfl
  unfold Lobby.pass
  dsimp only
  cases hf : n.queue.settled with
  | true => exact ⟨hn, hsettled, fun _ => rfl, fun _ _ => hf, h.replies⟩
  | false =>
    refine ⟨hn, hsettled, fun hs => by simp [hf] at hs, fun task ht => ?_, h.replies⟩
    -- the flag was cleared by a call just now, which has overtaken the task, or was so before
    obtain ⟨r, hr, he⟩ := List.mem_map.mp ht
    obtain ⟨-, hover⟩ := Prod.mk.inj he
    cases hm with
    | stays =>
      have hlate : r.2 = false := by simp at hover; exact hover.1
      have hold := h.released r.1 (hlate ▸ hr)
      rw [← (Prod.mk.inj hq).2] at hold
      exact absurd hold (by simp [hf])
    | ends _ => exact absurd ((Prod.mk.inj hq).2.symm.trans hf) (by simp)
    | starts hl => simp [hl] at hover

theorem Sound.step (h : b.Sound) (hs : Step b c) : c.Sound := by
  cases hs with
  | pass hp => exact h.pass hp
  | wait hq task =>
    unfold Lobby.wait
    split
    · next hf =>
      refine ⟨h.instant, h.settled, h.waiting, h.released, fun r hr ho => ?_⟩
      rcases List.mem_cons.mp hr with rfl | hr
      · have hne : b.instant.queue.status ≠ .running := by simpa [h.settled] using hf
        exact hne
      · exact h.replies r hr ho
    · next hf => exact ⟨h.instant, h.settled, fun hs => absurd hs hf, h.released, h.replies⟩
  | @reply hq r hr =>
    refine ⟨h.instant, h.settled, h.waiting,
      fun task ht => h.released task (List.mem_of_mem_erase ht), fun x hx ho => ?_⟩
    rcases List.mem_cons.mp hx with rfl | hx
    · have hlate : r.2 = false := ho
      have hf := h.released r.1 (hlate ▸ hr)
      have hne : b.instant.queue.status ≠ .running := by simpa [h.settled] using hf
      exact hne
    · exact h.replies x hx ho

theorem Sound.reaches (hb : b.Sound) (h : Reaches b c) : c.Sound := by
  induction h with
  | refl => exact hb
  | step _ hs ih => exact ih.step hs

theorem mem_released_pass {task : Nat} {late : Bool} (h : (task, late) ∈ b.released)
    (l : Option Turn) (n : Instant) :
    (task, late || (l.any Turn.starts && !n.queue.settled)) ∈ (b.pass l n).released := by
  have hm := List.mem_map_of_mem
    (f := fun r : Nat × Bool => (r.1, r.2 || (l.any Turn.starts && !n.queue.settled))) h
  unfold Lobby.pass
  dsimp only
  split
  · exact List.mem_append_left _ hm
  · exact hm

theorem mem_released_of_waiting {task : Nat} (h : task ∈ b.waiting) {n : Instant}
    (hn : n.queue.settled) (l : Option Turn) : (task, false) ∈ (b.pass l n).released := by
  have hm := List.mem_map_of_mem (f := (·, false)) h
  unfold Lobby.pass
  dsimp only
  rw [if_pos hn]
  exact List.mem_append_right _ hm

@[simp] theorem instant_pass (b : Lobby) (l : Option Turn) (n : Instant) :
    (b.pass l n).instant = n := by
  unfold Lobby.pass
  dsimp only
  split <;> rfl

theorem Reaches.trans {d : Lobby} (h : Reaches b c) (g : Reaches c d) : Reaches b d := by
  induction g with
  | refl => exact h
  | step _ hs ih => exact ih.step hs

theorem Reaches.pass (h : Reaches b c) {l : Option Turn} {n : Instant}
    (hs : c.instant.Step l n) : Reaches b (c.pass l n) :=
  h.step (.pass hs)

/-- A task that waits, or is to have its turn and has not been overtaken. -/
def Expects (b : Lobby) (task : Nat) : Prop := task ∈ b.waiting ∨ (task, false) ∈ b.released

theorem Expects.pass {task : Nat} (h : b.Expects task) {l : Option Turn}
    (hl : l.any Turn.starts = false) (n : Instant) : (b.pass l n).Expects task := by
  rcases h with h | h
  · cases hn : n.queue.settled with
    | true => exact .inr (mem_released_of_waiting h hn l)
    | false =>
      refine .inl ?_
      unfold Lobby.pass
      dsimp only
      rwa [if_neg (by simp [hn])]
  · have hm := mem_released_pass h l n
    rw [hl] at hm
    exact .inr hm

/-- What the queue does goes on in the lobby; who expects an answer still does if nobody starts the
queue. -/
theorem passes_reaches {P : Instant → Option Turn → Prop} {m n : Instant}
    (h : Instant.Passes P m n) (hb : b.instant = m) :
    ∃ c, Reaches b c ∧ c.instant = n ∧
      ((∀ i l, P i l → l.any Turn.starts = false) → ∀ task, b.Expects task → c.Expects task) := by
  induction h with
  | refl => exact ⟨b, .refl, hb, fun _ _ ht => ht⟩
  | @step i n l _ hs hl ih =>
    obtain ⟨c, hc, rfl, hkeeps⟩ := ih
    exact ⟨c.pass l n, hc.pass hs, instant_pass c l n,
      fun hp task ht => (hkeeps hp task ht).pass (hp _ _ hl) n⟩

/-- Whatever calls are made, and however they interleave with the worker and with the tasks that
wait: a wait returns the state of a queue that does not run, unless the queue was started between
the release of the task and its turn. -/
theorem reply_settled {t : Interpreter} {e : Engine} {b : Lobby}
    (h : Reaches (ofQueue (.make t e)) b) {r : Reply} (hr : r ∈ b.replies)
    (ho : r.overtaken = false) : r.state.status ≠ .running :=
  ((sound_ofQueue t e).reaches h).replies r hr ho

/-- A task that begins to wait while the queue runs. -/
theorem reaches_wait (h : Reaches b c) (hq : c.instant.IsQuiet)
    (hs : c.instant.queue.settled = false) (task : Nat) :
    ∃ d, Reaches b d ∧ d.instant = c.instant ∧ task ∈ d.waiting := by
  have hw : c.wait task = { c with waiting := c.waiting ++ [task] } := by
    unfold Lobby.wait
    rw [if_neg (by simp [hs])]
  exact ⟨_, h.step (.wait hq task), by rw [hw], by rw [hw]; simp⟩

theorem reaches_run_wait (lines : List Line) (task : Nat) :
    ∃ b, Reaches (ofQueue (.make (.make .standard []) .corridor)) b ∧
      b.instant = .ofQueue ((Queue.make (.make .standard []) .corridor).call (.run lines)) ∧
      task ∈ b.waiting := by
  have hrun := Instant.turn_passes (K := fun _ => False)
    (Instant.allows_make (.make .standard []) .corridor) (.call (.run lines))
  obtain ⟨a, ha, hai, _⟩ := passes_reaches (b := ofQueue _) hrun rfl
  obtain ⟨c, hc, hci, hw⟩ := reaches_wait ha (by rw [hai]; exact ⟨rfl, rfl⟩) (by rw [hai]; rfl) task
  exact ⟨c, hc, hci.trans hai, hw⟩

/-- A task that waits for a run to end, and is told that it has. -/
theorem reply_settled_corridor : ∃ (b : Lobby) (r : Reply),
    Reaches (ofQueue (.make (.make .standard []) .corridor)) b ∧ r ∈ b.replies ∧
      r.overtaken = false ∧ r.state.status ≠ .running := by
  obtain ⟨b, hb, hbi, hw⟩ := reaches_run_wait [] 0
  let q := (Queue.make (.make .standard []) .corridor).call (.run [])
  have hq : Queue.Allows (fun _ => False) q :=
    Instant.allows_turn (Instant.allows_make _ _) (t := .call (.run [])) (by simp)
  obtain ⟨c, hc, hci, hkeeps⟩ := passes_reaches (Instant.turn_passes hq .work) hbi
  have hexpects : c.Expects 0 := by
    refine hkeeps (fun i l hl => ?_) 0 (.inl hw)
    cases l with
    | none => rfl
    | some t =>
      rw [List.mem_singleton.mp (hl.silent rfl).2]
      rfl
  have hreach : Reaches (ofQueue (.make (.make .standard []) .corridor)) c := hb.trans hc
  have hsettled : c.instant.queue.settled := by
    rw [hci]
    rfl
  have hreleased : (0, false) ∈ c.released := by
    have hempty := ((sound_ofQueue _ _).reaches hreach).waiting hsettled
    rcases hexpects with hmem | hmem
    · rw [hempty] at hmem
      cases hmem
    · exact hmem
  have hreply := hreach.step (.reply (by rw [hci]; exact ⟨rfl, rfl⟩) hreleased)
  exact ⟨_, _, hreply, List.mem_cons_self, rfl, reply_settled hreply List.mem_cons_self rfl⟩

/-- A pause and a resume before the tasks that wait have their turn: each of them returns the state
of a running queue. -/
theorem pause_resume_overtakes {q : Queue} (hb : b.instant = .ofQueue q)
    (hs : q.status = .running) {task : Nat} (ht : task ∈ b.waiting) :
    ∃ c, Reaches b c ∧ ∃ r ∈ c.replies,
      r.task = task ∧ r.overtaken = true ∧ r.state.status = .running := by
  let paused := (q.cancelInFlight "paused").shift .paused
  let p := paused.record (.state paused.snapshot)
  let resumed := p.shift .running
  let r := resumed.record (.state resumed.snapshot)
  have hpause : b.instant.Step (some (.call .pause)) ⟨p, [.heed .status], .resting⟩ := by
    have he : Instant.call q [] .resting .pause = ⟨p, [.heed .status], .resting⟩ := by
      simp only [Instant.call, hs]
      rfl
    rw [hb, ← he]
    exact .turn q (.call .pause)
  have hresume : Instant.Step (.ofQueue p) (some (.call .resume))
      ⟨r, [.heed .status, .kick], .resting⟩ :=
    .turn p (.call .resume)
  have h1 := mem_released_of_waiting ht (n := ⟨p, [.heed .status], .resting⟩) rfl
    (some (.call .pause))
  have h2 := mem_released_pass h1 none (.ofQueue p)
  have h3 := mem_released_pass h2 (some (.call .resume)) ⟨r, [.heed .status, .kick], .resting⟩
  have h4 := mem_released_pass h3 none ⟨r, [.kick], .resting⟩
  have h5 := mem_released_pass h4 none (.ofQueue r.kick)
  have hreach := ((((Reaches.refl (b := b)).pass hpause).pass
    (n := .ofQueue p) (l := none) (by simpa using .heeded p .status [] .resting)).pass
    (l := some (.call .resume)) (by simpa using hresume)).pass
    (n := ⟨r, [.kick], .resting⟩) (l := none) (by simpa using .heeded r .status [.kick] .resting)
  have hreach := hreach.pass (n := .ofQueue r.kick) (l := none)
    (by simpa using .kick r [] .resting)
  refine ⟨_, hreach.step (.reply (by simpa using ⟨rfl, rfl⟩) h5), _, List.mem_cons_self, rfl, rfl,
    ?_⟩
  rw [instant_pass]
  exact Queue.status_kick r

/-- A task waits for a run to end; another one pauses the queue and resumes it at once. The first
task is told that the queue runs. -/
theorem pause_resume_overtakes_corridor : ∃ b : Lobby,
    Reaches (ofQueue (.make (.make .standard []) .corridor)) b ∧
      ∃ r ∈ b.replies, r.task = 0 ∧ r.state.status = .running := by
  obtain ⟨b, hb, hbi, hw⟩ := reaches_run_wait [.text "TURN_LEFT"] 0
  obtain ⟨c, hc, r, hr, htask, _, hs⟩ := pause_resume_overtakes hbi rfl hw
  exact ⟨c, hb.trans hc, r, hr, htask, hs⟩

end Lobby

end Courier
