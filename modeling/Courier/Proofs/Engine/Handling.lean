import Mathlib.Data.List.Chain
import Courier.Proofs.Engine.Conclusion
import Courier.Proofs.Interpreter.Opening

namespace Courier

/-- What an effective pickup or dropoff does. -/
inductive Handling
  | taken
  | delivered
  deriving DecidableEq

namespace Handling

/-- Whether there is cargo afterwards. -/
def loads : Handling → Bool
  | taken => true
  | delivered => false

def ofTaking (taking : Bool) : Handling := if taking then taken else delivered

def command : Handling → Command
  | taken => .pickup
  | delivered => .dropoff

/-- Whether there is cargo after some handlings, if each of them could be done where its turn came;
cargo can be taken by free hands only, and delivered only if there is some. -/
def carry (carrying : Bool) : List Handling → Option Bool
  | [] => some carrying
  | h :: hs => if carrying = h.loads then none else carry h.loads hs

@[simp] theorem loads_ofTaking (taking : Bool) : (ofTaking taking).loads = taking := by
  cases taking <;> rfl

theorem carry_concat {carrying c : Bool} {hs : List Handling} {h : Handling}
    (hc : carry carrying hs = some c) (hl : c ≠ h.loads) :
    carry carrying (hs ++ [h]) = some h.loads := by
  induction hs generalizing carrying with
  | nil =>
    have : carrying = c := by simpa [carry] using hc
    subst this
    simp [carry, hl]
  | cons g hs ih =>
    by_cases hg : carrying = g.loads
    · simp [carry, hg] at hc
    · simp only [carry, if_neg hg] at hc
      simp [carry, hg, ih hc]

/-- Handlings that could be done alternate, and they take as often as they deliver, up to what is
carried. -/
theorem carry_alternates {carrying c : Bool} {hs : List Handling}
    (hc : carry carrying hs = some c) :
    hs.IsChain (· ≠ ·) ∧ (∀ h ∈ hs.head?, h.loads ≠ carrying) ∧
      carrying.toNat + hs.count .taken = hs.count .delivered + c.toNat := by
  induction hs generalizing carrying with
  | nil =>
    have : carrying = c := by simpa [carry] using hc
    simp [this]
  | cons h hs ih =>
    by_cases hl : carrying = h.loads
    · simp [carry, hl] at hc
    · simp only [carry, if_neg hl] at hc
      obtain ⟨hchain, hhead, hcount⟩ := ih hc
      refine ⟨?_, ?_, ?_⟩
      · rw [List.isChain_cons]
        refine ⟨?_, hchain⟩
        intro g hg he
        exact hhead g hg (by rw [he])
      · intro g hg
        have : h = g := by simpa using hg
        subst this
        exact fun he => hl he.symm
      · cases h <;> cases carrying <;> simp [loads] at hl hcount ⊢ <;> omega

end Handling

/-- The handling that a result tells of, if its instruction changed the cargo. -/
def StepResult.handling? (r : StepResult) : Option Handling :=
  match r.effective, r.instruction.command with
  | some true, .pickup => some .taken
  | some true, .dropoff => some .delivered
  | _, _ => none

theorem StepResult.handling?_of_ineffective {r : StepResult} (h : r.effective ≠ some true) :
    r.handling? = none := by
  unfold handling?
  split
  · next he _ => exact absurd he h
  · next he _ => exact absurd he h
  · rfl

/-- The engine after some handlings: its cargo and its completions are theirs, and everyone who
listens from the start has been told of each completion. -/
structure Engine.Accounts (listeners : Nat) (hs : List Handling) (e : Engine) : Prop where
  cargo : Handling.carry false hs = some e.committed.isCarrying
  completed : e.completed = hs.count .delivered
  listeners : e.listeners = List.replicate listeners e.completed

/-- Effects that do to cargo and completions what a handling does, or nothing. -/
structure Handles (h : Option Handling) (s : Stance) (es : List Effect) : Prop where
  before : ∀ g ∈ h, s.isCarrying ≠ g.loads
  after : (s.after es).isCarrying = (h.map Handling.loads).getD s.isCarrying
  completions : Effect.completions es = h.toList.count .delivered

theorem Engine.Accounts.applyAll {k : Nat} {hs : List Handling} {e : Engine}
    (ha : e.Accounts k hs) {h : Option Handling} {es : List Effect}
    (he : Handles h e.committed es) : (e.applyAll es).Accounts k (hs ++ h.toList) where
  cargo := by
    rw [committed_applyAll, he.after]
    cases h with
    | none => simpa using ha.cargo
    | some g => exact Handling.carry_concat ha.cargo (he.before g rfl)
  completed := by
    rw [completed_applyAll, he.completions, ha.completed, List.count_append]
  listeners := by
    rw [listeners_applyAll, completed_applyAll, ha.listeners, List.map_replicate]

/-- What an activity is about to do to the cargo, on behalf of a command. -/
def Activity.Carries (c : Command) (s : Stance) : Activity → Prop
  | .gliding _ target _ _ => target.isCarrying = s.isCarrying
  | .settling _ => True
  | .squashing _ _ taking => c = (Handling.ofTaking taking).command ∧ s.isCarrying ≠ taking

/-- A stretch of an instruction that handles what its result tells, and leaves an activity that
will. -/
structure Stretch.Carries (i : Instruction) (s : Stance) (x : Stretch) : Prop where
  done : ∀ a, x.next = .done a → Handles (StepResult.ofAnswer i a).handling? s x.effects
  goes : (∀ a, x.next ≠ .done a) → Handles none s x.effects
  pause : ∀ seconds b, x.next = .pause seconds b → b.Carries i.command (s.after x.effects)

section Stretch

variable {i : Instruction} {s : Stance} {m : MotionSettings} {w : World}

theorem handles_none {es : List Effect} (ha : (s.after es).isCarrying = s.isCarrying)
    (hc : Effect.completions es = 0) : Handles none s es :=
  ⟨by simp, by simpa using ha, by simpa using hc⟩

theorem handles_after {h : Option Handling} {es fs : List Effect}
    (he : Handles none s es) (hf : Handles h (s.after es) fs) : Handles h s (es ++ fs) where
  before g hg := by
    have hb := hf.before g hg
    rwa [he.after] at hb
  after := by
    rw [Stance.after_append, hf.after, he.after]
    rfl
  completions := by
    rw [Effect.completions_append, he.completions, hf.completions]
    simp

theorem handling?_moved (i : Instruction) (cells : Nat) :
    (StepResult.ofAnswer i (.moved cells)).handling? = none :=
  StepResult.handling?_of_ineffective (by simp [StepResult.ofAnswer, StepResult.plain])

theorem handling?_turned (i : Instruction) : (StepResult.ofAnswer i .turned).handling? = none :=
  StepResult.handling?_of_ineffective (by simp [StepResult.ofAnswer, StepResult.plain])

theorem handling?_missed (i : Instruction) :
    (StepResult.ofAnswer i (.handled false)).handling? = none :=
  StepResult.handling?_of_ineffective (by simp [StepResult.ofAnswer, StepResult.plain])

theorem handling?_handled {h : Handling} (hc : i.command = h.command) :
    (StepResult.ofAnswer i (.handled true)).handling? = some h := by
  cases h <;> simp [StepResult.handling?, StepResult.ofAnswer, StepResult.plain, hc,
    Handling.command]

theorem carries_failed (f : Fault) : Stretch.Carries i s ⟨[], .failed f⟩ :=
  ⟨by simp, fun _ => handles_none rfl rfl, by simp⟩

theorem carries_ended {a : Answer} (ha : (StepResult.ofAnswer i a).handling? = none)
    {es : List Effect} (he : Handles none s es) : Stretch.Carries i s ⟨es, .done a⟩ := by
  refine ⟨?_, fun h => absurd rfl (h a), by simp⟩
  intro b hb
  cases hb
  rw [ha]
  exact he

theorem carries_pause {a : Activity} (ha : a.Carries i.command s)
    (seconds : Except NumberFault Number) : Stretch.Carries i s (.pause seconds a) := by
  cases seconds with
  | error f => exact carries_failed _
  | ok n =>
    refine ⟨by simp [Stretch.pause], fun _ => handles_none rfl rfl, ?_⟩
    intro _ b hb
    rw [Action.pause_next hb]
    exact ha

theorem carries_after {es : List Effect} {x : Stretch} (he : Handles none s es)
    (hx : x.Carries i (s.after es)) : Stretch.Carries i s (.after es x) where
  done a ha := handles_after he (hx.done a ha)
  goes h := handles_after he (hx.goes h)
  pause seconds b hb := by
    have h := hx.pause seconds b hb
    rwa [← Stance.after_append] at h

theorem carries_glide {t : Stance} (ht : t.cargo = s.cargo) (trek : Option Trek) :
    (Action.glide m s t trek).Carries i s := by
  unfold Action.glide
  cases m.frames.count with
  | error f => exact carries_failed _
  | ok n => exact carries_pause (by simp [Activity.Carries, Stance.isCarrying, ht]) _

theorem carries_stride (t : Trek) : (Action.stride m w s t).Carries i s := by
  unfold Action.stride
  cases t.left with
  | zero => exact carries_ended (handling?_moved i _) (handles_none rfl rfl)
  | succ left =>
    dsimp only
    split
    · exact carries_glide (s := s) (t := { s with cell := s.ahead t.sign }) rfl _
    · exact carries_ended (handling?_moved i _) (handles_none rfl (by simp))

theorem carries_squash {taking : Bool} (hc : i.command = (Handling.ofTaking taking).command)
    (hs : s.isCarrying ≠ taking) : (Action.squash m s taking).Carries i s := by
  have hnext : (Activity.squashing s 1 taking).Carries i.command s := ⟨hc, hs⟩
  unfold Action.squash
  split
  · exact carries_failed _
  · exact carries_failed _
  · exact carries_pause hnext _

/-- The first stretch of the action that a command asks for. -/
theorem carries_begin {a : Action} (ha : i.command.action? = some a) :
    (a.begin m w s).Carries i s := by
  have hmiss (es : List Effect) (he : Handles none s es) :
      Stretch.Carries i s ⟨es, .done (.handled false)⟩ := carries_ended (handling?_missed i) he
  have hnone : Handles none s [] := handles_none rfl rfl
  cases a with
  | move backward steps => exact carries_stride _
  | turn left =>
    exact carries_glide (s := s) (t := { s with
      heading := s.heading.turned (if left then -1 else 1) }) rfl _
  | pickup =>
    have hc : i.command = .pickup := by
      revert ha
      cases i.command <;> simp [Command.action?]
    by_cases hs : s.isCarrying
    · simpa [Action.begin, Stretch.done, hs] using hmiss [] hnone
    · by_cases hb : w.isBeside s.cell .pickup
      · have hx : (Action.squash m s true).Carries i s := carries_squash hc hs
        simpa [Action.begin, hs, hb] using hx
      · simpa [Action.begin, hs, hb] using hmiss _ (handles_none rfl (by simp))
  | dropoff =>
    have hc : i.command = .dropoff := by
      revert ha
      cases i.command <;> simp [Command.action?]
    by_cases hs : s.isCarrying
    · by_cases hb : w.isBeside s.cell .dropoff
      · have hx : (Action.squash m s false).Carries i s := carries_squash hc (by simp [hs])
        simpa [Action.begin, hs, hb] using hx
      · simpa [Action.begin, hs, hb] using hmiss _ (handles_none rfl (by simp))
    · simpa [Action.begin, Stretch.done, hs] using hmiss [] hnone

/-- At the end of a squash the cargo is taken or delivered. -/
theorem handles_squash (origin : Stance) (f : Frame) {taking : Bool} (hs : s.isCarrying ≠ taking) :
    Handles (some (.ofTaking taking)) s
      ([.publish f] ++ ([.publish (.still origin), .commit { s with cargo := .bool taking }]
        ++ if taking then [] else [.complete, .remark (.delivered origin.cell)])) := by
  constructor
  · intro g hg
    cases hg
    simpa using hs
  · cases taking <;> rfl
  · cases taking <;> simp [Handling.ofTaking]

theorem carries_resume {a : Activity} (ha : a.Carries i.command s) :
    (Action.resume m w s a).Carries i s := by
  have hshown (f : Frame) : Handles none s [.publish f] := handles_none rfl (by simp)
  cases a with
  | gliding origin target k trek =>
    unfold Action.resume
    dsimp only
    split
    · have hnext : (Activity.gliding origin target (k + 1) trek).Carries i.command s := ha
      exact carries_after (hshown _) (carries_pause (s := s) hnext _)
    · have hcommit : Handles none s ([.publish (.glide origin target k (Action.glideLength m))] ++
          [.commit target]) := handles_none ha (by simp)
      refine carries_after hcommit ?_
      cases trek with
      | none => exact carries_ended (handling?_turned i) (handles_none rfl rfl)
      | some t =>
        have hnext : (Activity.settling { t with moved := t.moved + 1 }).Carries i.command
            target := trivial
        exact carries_pause hnext _
  | settling t => exact carries_stride t
  | squashing origin k taking =>
    obtain ⟨hc, hs⟩ := ha
    unfold Action.resume
    dsimp only
    split
    · have hnext : (Activity.squashing origin (k + 1) taking).Carries i.command s := ⟨hc, hs⟩
      exact carries_after (hshown _) (carries_pause (s := s) hnext _)
    · refine ⟨?_, fun h => absurd rfl (h _), by simp⟩
      intro b hb
      cases hb
      rw [handling?_handled hc]
      exact handles_squash origin _ hs

end Stretch

end Courier
