import Courier.Proofs.Engine.Realm
import Courier.Proofs.Interpreter.Opening
import Courier.Proofs.Queue.Control

namespace Courier

/-- One turn: of a task outside, of the clock or of the worker. -/
inductive Turn
  | call (c : Call)
  /-- A run, or a new plan, with the lines that a value consists of. -/
  | given (isRun : Bool) (v : Json.Value)
  | leave (o : Order)
  | register (name : String) (c : Condition)
  | reset (pose : Option PoseEntry)
  | clock (time : Binary64)
  | work

theorem Condition.register_ne_nil (cs : List (String × Condition)) (name : String)
    (c : Condition) : register cs name c ≠ [] := by
  cases cs with
  | nil => simp [register, Json.insert, Json.insertBy]
  | cons r cs =>
    unfold register Json.insert Json.insertBy
    split <;> simp

namespace Queue

def turn (q : Queue) : Turn → Queue
  | .call c => q.call c
  | .given isRun v => (q.callWithLines isRun v).2
  | .leave o => q.leave o
  | .register name c => { q with interpreter := q.interpreter.register name c }
  | .reset pose =>
    match q.resetEngine pose with
    | .ok r => r
    | .error _ => q
  | .clock time => { q with now := time }
  | .work => q.work

def after (q : Queue) (ts : List Turn) : Queue := ts.foldl turn q

@[simp] theorem after_nil (q : Queue) : q.after [] = q := rfl

@[simp] theorem after_cons (q : Queue) (t : Turn) (ts : List Turn) :
    q.after (t :: ts) = (q.turn t).after ts := rfl

theorem after_append (q : Queue) (ts us : List Turn) :
    q.after (ts ++ us) = (q.after ts).after us := by
  simp [after, List.foldl_append]

/-- The states of a queue between two turns. -/
inductive Reachable : Queue → Prop
  | start {w : World} {pose : Option PoseEntry} {m : MotionSettings} {e : Engine}
      {t : Interpreter} (ht : t.conditions ≠ []) (h : Engine.make w pose m = .ok e) :
      Reachable (make t e)
  | turn {q : Queue} (h : Reachable q) (t : Turn) : Reachable (q.turn t)

theorem Reachable.after {q : Queue} (h : Reachable q) (ts : List Turn) :
    Reachable (q.after ts) := by
  induction ts generalizing q with
  | nil => exact h
  | cons t ts ih => exact ih (h.turn t)

-- What observers answer to an effect or to a result is made of control calls.

theorem controlled_react (o : Occasion) (q : Queue) : Controlled q (q.react call o) :=
  controlled_reactWithin controlled_call o _ q

theorem Controlled.withEngine {q r : Queue} (h : Controlled q r) (e : Engine) :
    Controlled { q with engine := e } { r with engine := e } :=
  ⟨rfl, h.completed, h.now, h.conditions, h.settings, h.token, h.worker⟩

theorem controlled_apply (q : Queue) (e : Effect) :
    Controlled { q with engine := q.engine.apply e } (q.apply e) := by
  have hf (q : Queue) (f : Frame) : Controlled q
      ((({ q with frames := q.frames+1 } : Queue).record (.frame q.now f)).react call
        ⟨.frame, .int (q.frames+1 : Nat)⟩) := by
    refine .trans ?_ (controlled_react _ _)
    exact ⟨rfl, rfl, rfl, rfl, rfl, rfl, .inl rfl⟩
  cases e with
  | publish f => exact hf { q with engine := q.engine.apply (.publish f) } f
  | commit s => exact hf { q with engine := q.engine.apply (.commit s) } (.still s)
  | complete => exact .refl _
  | remark r => exact controlled_record _ _

theorem controlled_applyAll (q : Queue) (es : List Effect) :
    Controlled { q with engine := q.engine.applyAll es } (q.applyAll es) := by
  induction es generalizing q with
  | nil => exact .refl q
  | cons e es ih =>
    have he := controlled_apply q e
    have h := he.withEngine ((q.engine.apply e).applyAll es)
    refine h.trans ?_
    have hs := ih (q.apply e)
    rwa [he.engine] at hs

-- An invariant of the agent and of the results is kept by all turns if the stretches of
-- instructions keep it.

/-- What holds of the agent and of the results between two stretches, and what it takes for an
instruction to pause in an activity. -/
structure Law where
  Holds : Engine → List StepResult → Prop
  Suits : Engine → Instruction → Activity → Prop

/-- A stretch of an instruction that keeps a law, with the result of the instruction if it ends. -/
structure Law.Admits (l : Law) (e : Engine) (rs : List StepResult) (i : Instruction)
    (x : Stretch) : Prop where
  goes : (∀ a, x.next ≠ .done a) → l.Holds (e.applyAll x.effects) rs
  done : ∀ a, x.next = .done a → l.Holds (e.applyAll x.effects) (rs ++ [.ofAnswer i a])
  suits : ∀ seconds a, x.next = .pause seconds a → l.Suits (e.applyAll x.effects) i a

structure Law.IsKept (l : Law) : Prop where
  shown : ∀ e rs, l.Holds e rs → l.Holds (e.apply (.publish (.still e.committed))) rs
  idle : ∀ e rs r, l.Holds e rs → r.effective = none → l.Holds e (rs ++ [r])
  begins : ∀ e rs i a, l.Holds e rs → i.command.action? = some a → l.Admits e rs i (e.begin a)
  resumes : ∀ e rs i a, l.Holds e rs → l.Suits e i a → l.Admits e rs i (e.resume a)

section Law

variable {l : Law} {q r : Queue}

/-- A law holds; some conditions are known. -/
structure Lawful (l : Law) (q : Queue) : Prop where
  holds : l.Holds q.engine q.completed.toList
  table : q.interpreter.conditions ≠ []

/-- The worker is not at work; it has a token exactly in a line. -/
def Law.Rests (l : Law) (q : Queue) : Prop :=
  match q.worker with
  | .absent => q.token = none
  | .fresh => q.token = none
  | .busy => False
  | .asleep _ i job _ => q.token.isSome ∧ ∀ a, job = .act a → l.Suits q.engine i a

structure Abides (l : Law) (q : Queue) : Prop where
  lawful : Lawful l q
  rests : l.Rests q

theorem Lawful.same (h : Lawful l q) (he : r.engine = q.engine) (hd : r.completed = q.completed)
    (hc : r.interpreter.conditions = q.interpreter.conditions) : Lawful l r :=
  ⟨by rw [he, hd]; exact h.holds, by rw [hc]; exact h.table⟩

theorem Lawful.controlled (h : Lawful l q) (hc : Controlled q r) : Lawful l r :=
  h.same hc.engine hc.completed hc.conditions

theorem Controlled.token_none (hc : Controlled q r) (h : q.token = none) : r.token = none := by
  have ht := hc.token
  rw [h] at ht
  exact Option.isSome_eq_false_iff.mp ht |> Option.isNone_iff_eq_none.mp

theorem Abides.controlled (h : Abides l q) (hc : Controlled q r) : Abides l r := by
  refine ⟨h.lawful.controlled hc, ?_⟩
  have hr := h.rests
  unfold Law.Rests at hr ⊢
  rcases hc.worker with hw | ⟨ha, hf⟩
  · rw [hw]
    cases hq : q.worker with
    | absent => rw [hq] at hr; exact hc.token_none hr
    | fresh => rw [hq] at hr; exact hc.token_none hr
    | busy => rw [hq] at hr; exact hr
    | asleep line i job wake =>
      rw [hq] at hr
      refine ⟨hc.token.trans hr.1, ?_⟩
      rw [hc.engine]
      exact hr.2
  · rw [hf]
    rw [ha] at hr
    exact hc.token_none hr

/-- What an operation of the worker leaves: without a token if the worker goes on, and at rest
otherwise. -/
structure Leaves (l : Law) (r : Queue × Bool) : Prop where
  lawful : Lawful l r.1
  goes : r.2 = true → r.1.token = none
  rests : r.2 = false → l.Rests r.1

theorem leaves_complete {s : StepResult} (h : l.Holds q.engine (q.completed.toList ++ [s]))
    (ht : q.interpreter.conditions ≠ []) : Leaves l (q.complete s, true) := by
  have hc : Controlled { q with token := none, current := none
                                completed := q.completed.push s } (q.complete s) := by
    unfold complete
    refine .trans (.trans ?_ (controlled_react _ _)) (controlled_announce controlled_call _)
    exact controlled_record _ _
  have hi : Lawful l ({ q with token := none, current := none
                               completed := q.completed.push s } : Queue) :=
    ⟨by simpa using h, ht⟩
  refine ⟨hi.controlled hc, ?_, by simp⟩
  intro _
  exact hc.token_none rfl

theorem leaves_abandon (h : Lawful l q) (line : Line) : Leaves l (q.abandon line, true) := by
  unfold abandon
  dsimp only
  generalize "Abandoned in-flight instruction " ++ _ ++ _ ++ _ ++ _ = text
  have hc := controlled_announce controlled_call { q.log .info text with current := none }
  have hi : Lawful l ({ q.log .info text with current := none } : Queue) := h.same rfl rfl rfl
  have ha := hi.controlled hc
  exact ⟨ha.same rfl rfl rfl, fun _ => rfl, by simp⟩

theorem leaves_fail (h : Lawful l q) (f : Fault) : Leaves l (q.fail f, false) := by
  unfold fail
  dsimp only
  generalize "Instruction " ++ _ ++ _ ++ _ = text
  have hc := controlled_become controlled_call .error { q.log .info text with fault := some f }
  have hi : Lawful l ({ q.log .info text with fault := some f } : Queue) := h.same rfl rfl rfl
  have ha := hi.controlled hc
  exact ⟨ha.same rfl rfl rfl, by simp, fun _ => rfl⟩

theorem leaves_stumble (h : Lawful l q) (line : Line) (f : Fault) :
    Leaves l (q.stumble line f) := by
  unfold stumble
  split
  · exact leaves_abandon h line
  · dsimp only
    split
    · exact leaves_fail h f
    · generalize "Unexpected failure executing " ++ line.literal = text
      exact leaves_fail (q := q.log .error text) (h.same rfl rfl rfl) f

theorem leaves_finish (h : Lawful l q) (ht : q.token = none) : Leaves l (q.finish, false) := by
  unfold finish
  split
  · exact leaves_fail h _
  · have hc := controlled_become controlled_call .idle q
    have hi := h.controlled hc
    exact ⟨hi.same rfl rfl rfl, by simp, fun _ => hc.token_none ht⟩

variable (hl : l.IsKept)
include hl

theorem leaves_interrupt (h : Lawful l q) (line : Line) (job : Job) (f : Fault) :
    Leaves l (q.interrupt line job f) := by
  unfold interrupt
  dsimp only
  split
  · have hs : Lawful l { q with
        engine := q.engine.apply (.publish (.still q.engine.committed)) } :=
      ⟨hl.shown _ _ h.holds, h.table⟩
    exact leaves_stumble (hs.controlled (controlled_apply q _)) line f
  · exact leaves_stumble h line f

theorem leaves_sleep (h : Lawful l q) (ht : q.token.isSome) (line : Line) {i : Instruction}
    {job : Job} (hj : ∀ a, job = .act a → l.Suits q.engine i a) (seconds : Number) :
    Leaves l (q.sleep line i job seconds) := by
  unfold sleep
  split
  · exact leaves_interrupt hl h line job _
  · split
    · exact ⟨h.same rfl rfl rfl, by simp, fun _ => ⟨ht, hj⟩⟩
    · split
      · exact ⟨h.same rfl rfl rfl, by simp, fun _ => ⟨ht, hj⟩⟩
      · exact leaves_stumble h line _

theorem leaves_proceed (h : Lawful l q) (ht : q.token.isSome) (line : Line) {i : Instruction}
    {x : Stretch} (hx : l.Admits q.engine q.completed.toList i x) :
    Leaves l (q.proceed line i x) := by
  have ha := controlled_applyAll q x.effects
  have he : (q.applyAll x.effects).engine = q.engine.applyAll x.effects := ha.engine
  have hd : (q.applyAll x.effects).completed = q.completed := ha.completed
  have htable : (q.applyAll x.effects).interpreter.conditions ≠ [] := by
    rw [ha.conditions]
    exact h.table
  have hgoes (hn : ∀ a, x.next ≠ .done a) : Lawful l (q.applyAll x.effects) :=
    ⟨by rw [he, hd]; exact hx.goes hn, htable⟩
  unfold proceed
  cases hn : x.next with
  | pause seconds a =>
    refine leaves_sleep hl (hgoes (by simp [hn])) (ha.token.trans ht) line ?_ seconds
    intro b hb
    cases hb
    rw [he]
    exact hx.suits seconds a hn
  | done a =>
    refine leaves_complete ?_ htable
    rw [he, hd]
    exact hx.done a hn
  | failed f => exact leaves_stumble (hgoes (by simp [hn])) line f

omit hl in
theorem controlled_heed (q : Queue) (o : Opening) : Controlled q (q.heed o) := by
  unfold heed
  cases o.evaluated <;> cases o.skipped <;> exact ⟨rfl, rfl, rfl, rfl, rfl, rfl, .inl rfl⟩

theorem leaves_execute (h : Lawful l q) (ht : q.token.isSome) (line : Line) :
    Leaves l (q.execute line) := by
  unfold execute
  dsimp only
  generalize ho : q.interpreter.openLine _ _ _ = o
  have hc := controlled_heed q o
  have hh := h.controlled hc
  cases hr : o.result with
  | error f => exact leaves_stumble hh line f
  | ok r =>
    obtain ⟨i, d, branches⟩ := r
    have hb : Lawful l ({ q.heed o with interpreter :=
        { (q.heed o).interpreter with branches } } : Queue) := hh.same rfl rfl rfl
    have htb : (q.heed o).token.isSome := hc.token.trans ht
    rw [← ho] at hr
    cases d with
    | finished s =>
      exact leaves_complete (hl.idle _ _ s hb.holds (Interpreter.openLine_finished hr)) hb.table
    | act a =>
      have ha : i.command.action? = some a := by
        obtain ⟨_, ⟨_, hd⟩ | ⟨hd, _⟩⟩ := Interpreter.openLine_ok hr
        · cases hd
        · exact Interpreter.demand_act.mp hd
      exact leaves_proceed hl hb htb line (hl.begins _ _ i a hb.holds ha)
    | wait seconds => exact leaves_sleep hl hb htb line (by simp) seconds

theorem leaves_takeLine (h : Lawful l q) (ht : q.token = none) : Leaves l q.takeLine := by
  unfold takeLine
  split
  · split
    · exact leaves_finish h ht
    · next line pending _ =>
      have hc : Controlled { q with pending, token := some .fresh, current := some line }
          (q.dispatch line pending) := controlled_announce controlled_call _
      have hi : Lawful l ({ q with
          pending, token := some .fresh, current := some line } : Queue) := h.same rfl rfl rfl
      exact leaves_execute hl (hi.controlled hc) (hc.token.trans rfl) line
  · exact ⟨h.same rfl rfl rfl, by simp, fun _ => ht⟩

theorem abides_takeLines (h : Lawful l q) (ht : q.token = none) (bound : Nat) :
    Abides l (q.takeLines bound) := by
  induction bound generalizing q with
  | zero => exact ⟨h.same rfl rfl rfl, ht⟩
  | succ bound ih =>
    have hx := leaves_takeLine hl h ht
    unfold takeLines
    split
    · next r hr =>
      rw [hr] at hx
      exact ih hx.lawful (hx.goes rfl)
    · next r hr =>
      rw [hr] at hx
      exact ⟨hx.lawful, hx.rests rfl⟩

theorem leaves_wakeUp (h : Lawful l q) (ht : q.token.isSome) (line : Line) {i : Instruction}
    {job : Job} (hj : ∀ a, job = .act a → l.Suits q.engine i a) :
    Leaves l (q.wakeUp line i job) := by
  unfold wakeUp
  split
  · exact leaves_interrupt hl h line job _
  · cases job with
    | act a => exact leaves_proceed hl h ht line (hl.resumes _ _ i a h.holds (hj a rfl))
    | wait => exact leaves_complete (hl.idle _ _ _ h.holds rfl) h.table

theorem abides_work (h : Abides l q) : Abides l q.work := by
  have hr := h.rests
  have hb : Lawful l ({ q with worker := .busy } : Queue) := h.lawful.same rfl rfl rfl
  unfold Law.Rests at hr
  cases hw : q.worker with
  | absent => rw [work_idle (.inl hw)]; exact h
  | busy => rw [work_idle (.inr hw)]; exact h
  | fresh =>
    rw [hw] at hr
    rw [work_fresh hw]
    exact abides_takeLines hl hb hr _
  | asleep line i job wake =>
    rw [hw] at hr
    have hx := leaves_wakeUp hl hb hr.1 line hr.2
    rw [work_asleep hw]
    split
    · next hg => exact abides_takeLines hl hx.lawful (hx.goes hg) _
    · next hg => exact ⟨hx.lawful, hx.rests (by simpa using hg)⟩

/-- Every turn but a reset keeps a law that the stretches keep. -/
theorem abides_turn (h : Abides l q) {t : Turn} (ht : ∀ pose, t ≠ .reset pose) :
    Abides l (q.turn t) := by
  cases t with
  | call c => exact h.controlled (controlled_call c q)
  | given isRun v =>
    simp only [turn, callWithLines]
    cases v.parts with
    | ok lines => exact h.controlled (controlled_call _ q)
    | error f =>
      cases isRun
      · exact h
      · exact h.controlled (controlled_cancelInFlight q _)
  | leave o => exact ⟨h.lawful.same rfl rfl rfl, h.rests⟩
  | register name c =>
    exact ⟨⟨h.lawful.holds, Condition.register_ne_nil _ name c⟩, h.rests⟩
  | reset pose => exact absurd rfl (ht pose)
  | clock time => exact ⟨h.lawful.same rfl rfl rfl, h.rests⟩
  | work => exact abides_work hl h

theorem abides_after (h : Abides l q) {ts : List Turn} (ht : ∀ t ∈ ts, ∀ pose, t ≠ .reset pose) :
    Abides l (q.after ts) := by
  induction ts generalizing q with
  | nil => exact h
  | cons t ts ih =>
    exact ih (abides_turn hl h (ht t (by simp))) (fun u hu => ht u (by simp [hu]))

end Law

section Sane

variable {w : World} {k : Realm w} {q r : Queue}

/-- The agent is in its world and inside a realm; some conditions are known. -/
structure Inside (k : Realm w) (q : Queue) : Prop where
  world : q.engine.world = w
  fits : k.Fits q.engine.committed q.engine.completed
  table : q.interpreter.conditions ≠ []

def Rests (k : Realm w) (q : Queue) : Prop :=
  match q.worker with
  | .absent => q.token = none
  | .fresh => q.token = none
  | .busy => False
  | .asleep _ _ job _ => q.token.isSome ∧ ∀ a, job = .act a → k.Suits a

structure Sane (k : Realm w) (q : Queue) : Prop where
  inside : Inside k q
  rests : Rests k q

/-- The agent stays in a realm. -/
def staying (k : Realm w) : Law where
  Holds e _ := e.world = w ∧ k.Fits e.committed e.completed
  Suits _ _ a := k.Suits a

theorem admits_staying {e : Engine} {rs : List StepResult} {i : Instruction} {x : Stretch}
    (hw : e.world = w) (hx : k.Admits e.committed e.completed x) :
    (staying k).Admits e rs i x := by
  have hs : (staying k).Holds (e.applyAll x.effects) rs :=
    ⟨by simpa using hw, by simpa using hx.fits⟩
  exact ⟨fun _ => hs, fun _ _ => hs, hx.suits⟩

theorem staying_isKept (k : Realm w) : (staying k).IsKept where
  shown _ _ h := h
  idle _ _ _ h _ := h
  begins e rs i a h _ := by
    refine admits_staying h.1 ?_
    rw [Engine.begin, h.1]
    exact Realm.admits_begin h.2 a
  resumes e rs i a h ha := by
    refine admits_staying h.1 ?_
    rw [Engine.resume, h.1]
    exact Realm.admits_resume h.2 ha

theorem sane_iff : Sane k q ↔ Abides (staying k) q := by
  constructor
  · intro h
    exact ⟨⟨⟨h.inside.world, h.inside.fits⟩, h.inside.table⟩, h.rests⟩
  · intro h
    exact ⟨⟨h.lawful.holds.1, h.lawful.holds.2, h.lawful.table⟩, h.rests⟩

theorem Sane.controlled (h : Sane k q) (hc : Controlled q r) : Sane k r :=
  sane_iff.mpr ((sane_iff.mp h).controlled hc)

theorem sane_work (h : Sane k q) : Sane k q.work :=
  sane_iff.mpr (abides_work (staying_isKept k) (sane_iff.mp h))

/-- Every turn but a reset keeps the agent in its realm. -/
theorem sane_turn (h : Sane k q) {t : Turn} (ht : ∀ pose, t ≠ .reset pose) :
    Sane k (q.turn t) :=
  sane_iff.mpr (abides_turn (staying_isKept k) (sane_iff.mp h) ht)

theorem sane_after (h : Sane k q) {ts : List Turn} (ht : ∀ t ∈ ts, ∀ pose, t ≠ .reset pose) :
    Sane k (q.after ts) :=
  sane_iff.mpr (abides_after (staying_isKept k) (sane_iff.mp h) ht)

end Sane

/-- A start is a cell the agent may stand on. -/
theorem canEnter_of_startStance {w : World} {pose : Option PoseEntry} {s : Stance}
    (h : Engine.startStance w pose = .ok s) : w.canEnter s.cell := by
  have hs : ∃ r : Except Fault Stance, (do
      let t ← r
      Engine.checkStart w t
      return t) = .ok s := by
    unfold Engine.startStance at h
    cases pose with
    | some p => exact ⟨_, h⟩
    | none => exact ⟨_, h⟩
  obtain ⟨r, hr⟩ := hs
  obtain ⟨t, _, hr⟩ := bind_eq_ok hr
  obtain ⟨u, hu, hr⟩ := bind_eq_ok hr
  cases hr
  unfold Engine.checkStart require at hu
  split at hu
  · next he => exact he
  · cases hu

/-- An engine starts out on the stance of its start. -/
theorem make_eq_ok {w : World} {pose : Option PoseEntry} {m : MotionSettings} {e : Engine}
    (h : Engine.make w pose m = .ok e) :
    ∃ s, Engine.startStance w pose = .ok s ∧
      e = { world := w, settings := m, committed := s, shown := .still s, observers := [],
            completed := 0 } := by
  obtain ⟨s, hs, h⟩ := bind_eq_ok h
  cases h
  exact ⟨s, hs, rfl⟩

theorem make_of_stance {w : World} {p : PoseEntry} {s : Stance} (hp : p.stance = .ok s)
    (hs : w.canEnter s.cell) (m : MotionSettings) :
    Engine.make w (some p) m = .ok { world := w, settings := m, committed := s, shown := .still s,
                                     observers := [], completed := 0 } := by
  have hc : Engine.checkStart w s = .ok () := by
    unfold Engine.checkStart require
    rw [if_pos hs]
  have hw : Engine.startStance w (some p) = .ok s := by
    unfold Engine.startStance
    dsimp only
    rw [hp, ok_bind, hc]
    rfl
  unfold Engine.make
  rw [hw]
  rfl

theorem sane_reset {q r : Queue} {pose : Option PoseEntry}
    (h : Sane q.engine.world.standing q) (hr : q.resetEngine pose = .ok r) :
    Sane q.engine.world.standing r := by
  unfold resetEngine at hr
  cases hs : q.engine.resetStance pose with
  | error f => rw [hs] at hr; cases hr
  | ok s =>
    rw [hs] at hr
    cases hr
    have hc := controlled_apply q (.commit s)
    have hk : q.engine.world.canEnter s.cell := canEnter_of_startStance hs
    have hf : q.engine.world.standing.Fits s q.engine.completed :=
      ⟨hk, fun _ => trivial, fun _ => ⟨trivial, trivial⟩⟩
    have hq : Sane q.engine.world.standing
        ({ q with engine := q.engine.apply (.commit s) } : Queue) :=
      ⟨⟨rfl, hf, h.inside.table⟩, h.rests⟩
    exact hq.controlled hc

/-- In every reachable state the agent stands on a cell it may stand on, and the worker rests. -/
theorem Reachable.sane {q : Queue} (h : Reachable q) : Sane q.engine.world.standing q := by
  induction h with
  | @start w pose m e t ht h =>
    obtain ⟨s, hs, rfl⟩ := make_eq_ok h
    have hf : w.standing.Fits s 0 :=
      ⟨canEnter_of_startStance hs, fun _ => trivial, fun _ => ⟨trivial, trivial⟩⟩
    exact ⟨⟨rfl, hf, ht⟩, rfl⟩
  | @turn q h t ih =>
    have ht : Sane q.engine.world.standing (q.turn t) := by
      by_cases hp : ∃ pose, t = .reset pose
      · obtain ⟨pose, rfl⟩ := hp
        cases hr : q.resetEngine pose with
        | ok r => simpa [Queue.turn, hr] using sane_reset ih hr
        | error f => simpa [Queue.turn, hr] using ih
      · exact sane_turn ih (fun pose hq => hp ⟨pose, hq⟩)
    rwa [← ht.inside.world] at ht

end Queue

/-- Two cells side by side, and the agent on the left one. -/
def Engine.corridor : Engine where
  world := .ofFn 2 1 (fun _ _ => .empty) [] (by decide) (by decide)
  settings := .standard
  committed := .start 1
  shown := .still (.start 1)
  observers := []
  completed := 0

theorem Queue.reachable_corridor (s : WaitSettings) : Reachable (make (.make s []) .corridor) :=
  @Reachable.start Engine.corridor.world none .standard .corridor _ (by simp [Interpreter.make,
    Condition.table, Condition.standard]) rfl

end Courier
