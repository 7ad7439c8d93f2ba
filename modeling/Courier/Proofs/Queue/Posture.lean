import Courier.Proofs.Interpreter.Opening
import Courier.Proofs.Queue.Instant
import Courier.Proofs.Queue.Spell

namespace Courier

/-- A line that neither opens nor closes a branch. -/
def Line.IsBody (line : Line) : Prop :=
  ∃ i, Instruction.parse line.plain = .ok i ∧ i.command.opcode.isControl = false

namespace Queue

/-- The worker is not at work. -/
def IsParked (q : Queue) : Prop :=
  match q.worker with
  | .absent => q.token = none
  | .fresh => q.token = none
  | .busy => False
  | .asleep line _ _ _ => q.token.isSome ∧ Line.IsBody line

/-- The worker is between two lines. -/
structure IsVacant (q : Queue) : Prop where
  worker : q.worker = .busy
  token : q.token = none

/-- The worker is at work on a line. -/
structure IsEngaged (q : Queue) : Prop where
  worker : q.worker = .busy
  token : q.token.isSome

variable {q r : Queue}

theorem Controlled.busy (hc : Controlled q r) (h : q.worker = .busy) : r.worker = .busy := by
  rcases hc.worker with hw | ⟨ha, _⟩
  · exact hw.trans h
  · rw [h] at ha
    cases ha

theorem IsVacant.controlled (h : q.IsVacant) (hc : Controlled q r) : r.IsVacant :=
  ⟨hc.busy h.worker, hc.token_none h.token⟩

theorem IsEngaged.controlled (h : q.IsEngaged) (hc : Controlled q r) : r.IsEngaged :=
  ⟨hc.busy h.worker, hc.token.trans h.token⟩

theorem IsParked.controlled (h : q.IsParked) (hc : Controlled q r) : r.IsParked := by
  unfold IsParked at h ⊢
  rcases hc.worker with hw | ⟨ha, hf⟩
  · rw [hw]
    cases hq : q.worker with
    | absent => rw [hq] at h; exact hc.token_none h
    | fresh => rw [hq] at h; exact hc.token_none h
    | busy => rw [hq] at h; exact h
    | asleep line i job time => rw [hq] at h; exact ⟨hc.token.trans h.1, h.2⟩
  · rw [hf]
    rw [ha] at h
    exact hc.token_none h

end Queue

/-- The sequel of effects that a line shows. -/
def Sequel.IsOf (line : Line) : Sequel → Prop
  | .next l _ p => l = line ∧ ∀ f, p = .failed f → ∃ n, f = .number n
  | .stumble l f => l = line ∧ ∃ text, f = .cancelled text
  | .rest => False

/-- The worker and the token as they are at a phase. -/
def Phase.Suits (q : Queue) : Phase → Prop
  | .resting => q.IsParked
  | .taking => q.IsVacant
  | .executing _ => q.IsEngaged
  | .showing _ .rest => q.IsParked
  | .showing _ s => q.IsEngaged ∧ ∃ line, s.IsOf line ∧ Line.IsBody line
  | .telling => q.IsVacant
  | .releasing _ => q.worker = .busy
  | .leaving failed => q.worker = .busy ∧ (failed = false → q.token = none)

/-- No turn of the worker is in progress. -/
def Phase.isOutside : Phase → Bool
  | .resting => true
  | .showing _ .rest => true
  | _ => false

theorem Phase.Suits.parked {p : Phase} {q : Queue} (h : p.Suits q) (hp : p.isOutside) :
    q.IsParked := by
  cases p with
  | resting => exact h
  | showing es s =>
    cases s with
    | rest => exact h
    | next l i p => cases hp
    | stumble l f => cases hp
  | _ => cases hp

theorem Phase.Suits.controlled {p : Phase} {q r : Queue} (h : p.Suits q)
    (hc : Queue.Controlled q r) : p.Suits r := by
  cases p with
  | resting => exact Queue.IsParked.controlled h hc
  | taking => exact Queue.IsVacant.controlled h hc
  | executing line => exact Queue.IsEngaged.controlled h hc
  | telling => exact Queue.IsVacant.controlled h hc
  | releasing line => exact hc.busy h
  | leaving failed => exact ⟨hc.busy h.1, fun hf => hc.token_none (h.2 hf)⟩
  | showing es s =>
    cases s with
    | next line i p => exact ⟨h.1.controlled hc, h.2⟩
    | stumble line f => exact ⟨h.1.controlled hc, h.2⟩
    | rest => exact Queue.IsParked.controlled h hc

/-- With another trace and other open branches, as the opening of a line leaves them. -/
def Queue.noted (q : Queue) (trace : Array Event) (branches : List Bool) : Queue :=
  { q with trace, interpreter := { q.interpreter with branches } }

namespace Instant

def Sound (m : Instant) : Prop := m.phase.Suits m.queue

/-- What a stretch of a line can come to, `F` telling the faults that it may end in. -/
inductive Comes (F : Fault → Prop) (q : Queue) (line : Line) : Instant → Prop
  | result (r : StepResult) : Comes F q line (complete q r)
  | dropped : Comes F q line (abandon q line)
  | failed {f : Fault} (hf : F f) : Comes F q line (fail (q.wonder line f) f)
  | pause (hb : Line.IsBody line) (i : Instruction) (job : Job) (time : Option Binary64) :
    Comes F q line ⟨{ q with worker := .asleep line i job time }, [], .resting⟩
  | shows (hb : Line.IsBody line) (es : List Effect) {s : Sequel} (hs : s.IsOf line) :
    Comes F q line ⟨q, [], .showing es s⟩

variable {F G : Fault → Prop} {q : Queue} {line : Line} {i : Instruction} {m n : Instant}

theorem Comes.mono (h : Comes F q line m) (hfg : ∀ f, F f → G f) : Comes G q line m := by
  cases h with
  | result r => exact .result r
  | dropped => exact .dropped
  | failed hf => exact .failed (hfg _ hf)
  | pause hb i job time => exact .pause hb i job time
  | shows hb es hs => exact .shows hb es hs

theorem comes_stumble {f : Fault} (hf : (∀ text, f ≠ .cancelled text) → F f) :
    Comes F q line (stumble q line f) := by
  have hfail (hc : ∀ text, f ≠ .cancelled text) : Comes F q line (fail (q.wonder line f) f) :=
    .failed (hf hc)
  cases f with
  | cancelled reason => exact .dropped
  | _ => exact hfail (by simp)

theorem tokenCheck_cancelled {f : Fault} (h : q.tokenCheck = .error f) :
    ∃ text, f = .cancelled text := by
  unfold Queue.tokenCheck Token.check at h
  split at h
  · exact ⟨_, (Except.error.inj h).symm⟩
  · cases h

theorem comes_interrupt (hb : Line.IsBody line) (job : Job) {f : Fault}
    (hf : ∃ text, f = .cancelled text) : Comes F q line (interrupt q line job f) := by
  unfold interrupt
  split
  · exact .shows hb _ ⟨rfl, hf⟩
  · obtain ⟨text, rfl⟩ := hf
    exact .dropped

theorem comes_begin (hb : Line.IsBody line) (a : Action) :
    Comes F q line (proceed q line i (q.engine.begin a)) :=
  .shows hb _ ⟨rfl, fun _ hf => Action.begin_failed hf⟩

theorem comes_wake (hb : Line.IsBody line) (job : Job) : Comes F q line (wake q line i job) := by
  unfold wake
  split
  · next hk => exact comes_interrupt hb job (tokenCheck_cancelled hk)
  · cases job with
    | act a => exact .shows hb _ ⟨rfl, fun _ hf => Action.resume_failed hf⟩
    | wait => exact .result _

theorem comes_sleep (hF : ∀ n, F (.number n)) (hb : Line.IsBody line) (job : Job)
    (seconds : Number) : Comes F q line (sleep q line i job seconds) := by
  unfold sleep
  split
  · next hk => exact comes_interrupt hb job (tokenCheck_cancelled hk)
  · split
    · exact .pause hb i job none
    · split
      · exact .pause hb i job _
      · exact comes_stumble (fun _ => hF _)

theorem comes_follow (hF : ∀ n, F (.number n)) (hb : Line.IsBody line) {s : Sequel}
    (hs : s.IsOf line) : Comes F q line (follow q s) := by
  cases s with
  | next l j p =>
    obtain ⟨rfl, hp⟩ := hs
    cases p with
    | pause seconds a => exact comes_sleep hF hb (.act a) seconds
    | done a => exact .result _
    | failed f =>
      obtain ⟨k, rfl⟩ := hp f rfl
      exact comes_stumble (fun _ => hF k)
  | stumble l f =>
    obtain ⟨rfl, text, rfl⟩ := hs
    exact .dropped
  | rest => exact hs.elim

theorem comes_meet (hF : ∀ n, F (.number n)) {d : Demand}
    (hd : (∃ r, d = .finished r) ∨ Line.IsBody line) : Comes F q line (meet q line i d) := by
  cases d with
  | finished r => exact .result r
  | act a =>
    rcases hd with ⟨_, hr⟩ | hb
    · cases hr
    · exact comes_begin hb a
  | wait seconds =>
    rcases hd with ⟨_, hr⟩ | hb
    · cases hr
    · exact comes_sleep hF hb .wait seconds

/-- Only what neither opens nor closes a branch asks for more than its result. -/
theorem isBody_of_demand {t : Interpreter} {d : Demand}
    (hp : Instruction.parse line.plain = .ok i) (hd : t.demand i = .ok d) :
    (∃ r, d = .finished r) ∨ Line.IsBody line := by
  have hbody (hc : i.command.opcode.isControl = false) : Line.IsBody line := ⟨i, hp, hc⟩
  cases hc : i.command with
  | branch name =>
    unfold Interpreter.demand at hd
    rw [hc] at hd
    exact .inl ⟨_, (Except.ok.inj hd).symm⟩
  | endBranch =>
    unfold Interpreter.demand at hd
    rw [hc] at hd
    exact .inl ⟨_, (Except.ok.inj hd).symm⟩
  | _ => exact .inr (hbody (by rw [hc]; rfl))

theorem heed_eq (q : Queue) (o : Opening) : ∃ a, q.heed o = { q with trace := a } := by
  unfold Queue.heed
  cases o.evaluated <;> cases o.skipped <;> exact ⟨_, rfl⟩

theorem execute_ok {o : Opening} {d : Demand} {branches : List Bool}
    (ho : q.interpreter.openLine (q.token.getD .fresh)
      (.ofStance q.engine.world q.engine.committed) line.plain = o)
    (hr : o.result = .ok (i, d, branches)) :
    ∃ a, execute q line = meet (q.noted a branches) line i d := by
  obtain ⟨a, hh⟩ := heed_eq q o
  refine ⟨a, ?_⟩
  unfold execute
  dsimp only
  rw [ho, hr, hh]
  rfl

theorem execute_error {o : Opening} {f : Fault}
    (ho : q.interpreter.openLine (q.token.getD .fresh)
      (.ofStance q.engine.world q.engine.committed) line.plain = o)
    (hr : o.result = .error f) : ∃ a, execute q line = stumble { q with trace := a } line f := by
  obtain ⟨a, hh⟩ := heed_eq q o
  refine ⟨a, ?_⟩
  unfold execute
  dsimp only
  rw [ho, hr, hh]

/-- A line changes no more than the branches and the trace before its stretch ends. -/
theorem comes_execute (q : Queue) (line : Line) :
    ∃ a b, Comes (fun _ => True) (q.noted a b) line (execute q line) := by
  generalize ho : q.interpreter.openLine (q.token.getD .fresh)
    (.ofStance q.engine.world q.engine.committed) line.plain = o
  cases hr : o.result with
  | error f =>
    obtain ⟨a, he⟩ := execute_error ho hr
    rw [he]
    exact ⟨a, q.interpreter.branches, comes_stumble (fun _ => trivial)⟩
  | ok x =>
    obtain ⟨i, d, branches⟩ := x
    obtain ⟨a, he⟩ := execute_ok ho hr
    rw [← ho] at hr
    obtain ⟨hp, hd⟩ := Interpreter.openLine_ok hr
    rw [he]
    refine ⟨a, branches, comes_meet (fun _ => trivial) ?_⟩
    rcases hd with hd | ⟨hd, _⟩
    · exact .inl hd
    · exact isBody_of_demand hp hd

-- What each step can be, for all invariants below.

/-- An effect leaves the worker and the token alone, as well as the phase. -/
theorem display_eq (q : Queue) (e : Effect) (p : Phase) :
    ∃ a k ds, display q e p =
      ⟨{ q with engine := q.engine.apply e, trace := a, frames := k }, ds, p⟩ ∧
        .kick ∉ ds := by
  cases e with
  | publish f => exact ⟨_, _, _, rfl, by simp⟩
  | commit s => exact ⟨_, _, _, rfl, by simp⟩
  | complete => exact ⟨_, _, _, rfl, by simp⟩
  | remark r => exact ⟨_, _, _, rfl, by simp⟩

theorem fail_eq (q : Queue) (f : Fault) :
    ∃ a, fail q f = ⟨{ q with fault := some f, status := .error, settled := true, trace := a },
      [.heed .status], .leaving true⟩ := by
  obtain ⟨a, he⟩ := shift_eq .error (q.blame f)
  unfold fail
  rw [he]
  exact ⟨_, rfl⟩

theorem wonder_eq (q : Queue) (line : Line) (f : Fault) :
    ∃ a, q.wonder line f = { q with trace := a } := by
  unfold Queue.wonder
  split
  · exact ⟨_, rfl⟩
  · exact ⟨_, rfl⟩

theorem kick_eq (q : Queue) : ∃ w, q.kick = { q with worker := w } := by
  unfold Queue.kick
  split
  · exact ⟨_, rfl⟩
  · exact ⟨q.worker, rfl⟩

theorem take_cases {C : Instant → Prop} (q : Queue)
    (away : q.status ≠ .running → C ⟨{ q with worker := .absent }, [], .resting⟩)
    (unclosed : ∀ a f, q.status = .running → q.pending = [] →
      q.interpreter.checkBalanced = .error f →
      C ⟨{ q with fault := some f, status := .error, settled := true, trace := a },
        [.heed .status], .leaving true⟩)
    (ended : ∀ a, q.status = .running → q.pending = [] →
      q.interpreter.checkBalanced = .ok () →
      C ⟨{ q with status := .idle, settled := true, trace := a }, [.heed .status], .leaving false⟩)
    (line : ∀ line pending, q.status = .running → q.pending = line :: pending →
      C (announce (q.pick line pending) [] (.executing line))) : C (take q) := by
  unfold take
  split
  · next hs =>
    split
    · next hp =>
      unfold finish
      split
      · next f hf =>
        obtain ⟨a, he⟩ := fail_eq q f
        rw [he]
        exact unclosed a f hs hp hf
      · next hf =>
        obtain ⟨a, he⟩ := shift_eq .idle q
        rw [he]
        exact ended _ hs hp hf
    · next l pending hp => exact line l pending hs hp
  · next hs => exact away hs

/-- What goes on once nobody has anything to do before the worker does. -/
theorem advance_cases {C : Instant → Prop} {p : Phase} (hm : p.Suits q)
    (resting : p = .resting → C (ofQueue q))
    (taking : p = .taking → C (take q))
    (line : ∀ a b line m, q.IsEngaged →
      ((∀ l, p ≠ .executing l) → Line.IsBody line ∧ b = q.interpreter.branches) →
      Comes (fun f => (∀ l, p ≠ .executing l) → ∃ n, f = .number n) (q.noted a b) line m → C m)
    (display : ∀ e es s a k ds, p = .showing (e :: es) s → .kick ∉ ds →
      C ⟨{ q with engine := q.engine.apply e, trace := a, frames := k }, ds, .showing es s⟩)
    (shown : p = .showing [] .rest → C (ofQueue q))
    (telling : p = .telling → C (announce q [] .taking))
    (releasing : ∀ line, p = .releasing line → C ⟨{ q with token := none }, [], .taking⟩)
    (leaving : ∀ failed, p = .leaving failed →
      C (ofQueue { q with token := if failed then none else q.token, worker := .absent })) :
    C (advance q p) := by
  cases p with
  | resting => exact resting rfl
  | taking => exact taking rfl
  | telling => exact telling rfl
  | releasing l => exact releasing l rfl
  | leaving failed => exact leaving failed rfl
  | executing l =>
    obtain ⟨a, b, hc⟩ := comes_execute q l
    simp only [advance]
    exact line a b l _ hm (fun h => absurd rfl (h l))
      (hc.mono (fun f _ h => absurd rfl (h l)))
  | showing es s =>
    cases es with
    | cons e es =>
      obtain ⟨a, k, ds, he, hk⟩ := display_eq q e (.showing es s)
      simp only [advance]
      rw [he]
      exact display e es s a k ds rfl hk
    | nil =>
      have hfollow (hq : q.IsEngaged ∧ ∃ l, s.IsOf l ∧ Line.IsBody l) : C (follow q s) := by
        obtain ⟨hq, l, hs, hb⟩ := hq
        refine line q.trace q.interpreter.branches l _ hq (fun _ => ⟨hb, rfl⟩) ?_
        exact comes_follow (fun n _ => ⟨n, rfl⟩) hb hs
      simp only [advance]
      cases s with
      | rest => exact shown rfl
      | next l i p => exact hfollow hm
      | stumble l f => exact hfollow hm

theorem work_cases {C : Instant → Prop} (hm : q.IsParked)
    (fresh : q.worker = .fresh → C ⟨{ q with worker := .busy }, [], .taking⟩)
    (line : ∀ line i job time m, q.worker = .asleep line i job time → q.token.isSome →
      Line.IsBody line →
      Comes (fun f => ∃ n, f = .number n) { q with worker := .busy } line m → C m)
    (idle : C (ofQueue q)) : C (begin q .work) := by
  simp only [begin]
  unfold Queue.IsParked at hm
  split
  · next hw => exact fresh hw
  · next l i job time hw =>
    rw [hw] at hm
    exact line l i job time _ hw hm.1 hm.2 (comes_wake hm.2 job)
  · exact idle

/-- What a turn begins with. -/
theorem begin_cases {C : Instant → Prop} (hm : q.IsParked) (t : Turn)
    (call : ∀ c, t = .call c ∨ (∃ isRun v, t = .given isRun v ∧
      (isRun = true ∧ (∃ lines, c = .run lines) ∨ isRun = false ∧ ∃ lines, c = .setQueue lines)) →
      C (call q [] .resting c))
    (refused : (∃ v, t = .given true v) → C (ofQueue (q.cancelInFlight Queue.runReason)))
    (aside : ∀ os time table, C (ofQueue { q with
      orders := os, now := time, interpreter := { q.interpreter with conditions := table } }))
    (reset : ∀ s, C ⟨q, [], .showing [.commit s] .rest⟩)
    (fresh : q.worker = .fresh → C ⟨{ q with worker := .busy }, [], .taking⟩)
    (line : ∀ line i job time m, q.worker = .asleep line i job time → q.token.isSome →
      Line.IsBody line →
      Comes (fun f => ∃ n, f = .number n) { q with worker := .busy } line m → C m)
    (idle : C (ofQueue q)) : C (begin q t) := by
  cases t with
  | call c => exact call c (.inl rfl)
  | given isRun v =>
    simp only [begin]
    split
    · next lines _ =>
      cases isRun with
      | true => exact call _ (.inr ⟨true, v, rfl, .inl ⟨rfl, lines, rfl⟩⟩)
      | false => exact call _ (.inr ⟨false, v, rfl, .inr ⟨rfl, lines, rfl⟩⟩)
    · cases isRun with
      | true => exact refused ⟨v, rfl⟩
      | false => exact idle
  | leave o => exact aside (q.orders ++ [o]) q.now q.interpreter.conditions
  | register name c => exact aside q.orders q.now _
  | clock time => exact aside q.orders time q.interpreter.conditions
  | reset pose =>
    simp only [begin]
    split
    · next s _ => exact reset s
    · exact idle
  | work => exact work_cases hm fresh line idle

-- The invariant.

theorem sound_comes (h : Comes F q line m) (hq : q.IsEngaged) : Sound m := by
  cases h with
  | result r => exact ⟨hq.worker, rfl⟩
  | dropped => exact hq.worker
  | @failed f hf =>
    obtain ⟨a, hw⟩ := wonder_eq q line f
    obtain ⟨b, he⟩ := fail_eq (q.wonder line f) f
    rw [he, hw]
    exact ⟨hq.worker, by simp⟩
  | pause hb i job time => exact ⟨hq.token, hb⟩
  | @shows hb es s hs =>
    cases s with
    | next l i p => exact ⟨hq, line, hs, hb⟩
    | stumble l f => exact ⟨hq, line, hs, hb⟩
    | rest => exact hs.elim

theorem sound_take (hq : q.IsVacant) : Sound (take q) := by
  refine take_cases q ?_ ?_ ?_ ?_
  · exact fun _ => hq.token
  · exact fun a f _ _ _ => ⟨hq.worker, by simp⟩
  · exact fun a _ _ _ => ⟨hq.worker, fun _ => hq.token⟩
  · exact fun line pending _ _ => ⟨hq.worker, rfl⟩

theorem sound_advance {p : Phase} (h : p.Suits q) : Sound (advance q p) := by
  refine advance_cases h ?_ ?_ ?_ ?_ ?_ ?_ ?_ ?_
  · rintro rfl
    exact h
  · rintro rfl
    exact sound_take h
  · exact fun a b line m hq _ hc => sound_comes hc ⟨hq.worker, hq.token⟩
  · rintro e es s a k ds rfl _
    cases s with
    | rest => exact h
    | next l i p => exact ⟨⟨h.1.worker, h.1.token⟩, h.2⟩
    | stumble l f => exact ⟨⟨h.1.worker, h.1.token⟩, h.2⟩
  · rintro rfl
    exact h
  · rintro rfl
    exact ⟨h.worker, h.token⟩
  · rintro line rfl
    exact ⟨h, rfl⟩
  · rintro failed rfl
    cases failed with
    | true => exact rfl
    | false => exact h.2 rfl

theorem sound_call {p : Phase} (h : p.Suits q) (ds : List Duty) (c : Call) :
    Sound (call q ds p c) := by
  unfold Sound
  rw [phase_call]
  exact h.controlled (controlled_call q ds p c)

theorem sound_begin (h : q.IsParked) (t : Turn) : Sound (begin q t) := by
  refine begin_cases h t ?_ ?_ ?_ ?_ ?_ ?_ ?_
  · exact fun c _ => sound_call (p := .resting) h [] c
  · exact fun _ => h.controlled (Queue.controlled_cancelInFlight q _)
  · exact fun os time table => h
  · exact fun s => h
  · intro hw
    unfold Queue.IsParked at h
    rw [hw] at h
    exact ⟨rfl, h⟩
  · exact fun line i job time m _ ht _ hc => sound_comes hc ⟨rfl, ht⟩
  · exact h

theorem Sound.step {l : Option Turn} (h : Sound m) (hs : Step m l n) : Sound n := by
  cases hs with
  | turn q t => exact sound_begin h t
  | answer q moment ds p c => exact sound_call h _ c
  | order q moment ds p os => exact h.controlled ⟨rfl, rfl, rfl, rfl, rfl, rfl, .inl rfl⟩
  | heeded q moment ds p => exact h
  | kick q ds p => exact h.controlled (Queue.controlled_kick q)
  | advance q hp => exact sound_advance h

theorem Passes.sound {P : Instant → Option Turn → Prop} (h : Passes P m n) (hm : Sound m) :
    Sound n :=
  h.preserves hm (fun hb hs _ => hb.step hs)

/-- What every admitted step from a sound instant preserves holds after a passage. -/
theorem Passes.keeps {P : Instant → Option Turn → Prop} {I : Instant → Prop} (h : Passes P m n)
    (hm : Sound m) (hI : I m)
    (hstep : ∀ {b r l}, Sound b → I b → Step b l r → P b l → I r) : I n := by
  have hboth : Sound n ∧ I n := h.preserves (I := fun b => Sound b ∧ I b) ⟨hm, hI⟩
    (fun hb hs hl => ⟨hb.1.step hs, hstep hb.1 hb.2 hs hl⟩)
  exact hboth.2

theorem sound_make (t : Interpreter) (e : Engine) : Sound (ofQueue (.make t e)) := rfl

end Instant

end Courier
