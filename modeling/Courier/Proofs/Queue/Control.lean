import Mathlib.Logic.Basic
import Courier.Queue.Time

namespace Courier.Queue

/-- What no control call changes. -/
structure Controlled (q r : Queue) : Prop where
  engine : r.engine = q.engine
  completed : r.completed = q.completed
  now : r.now = q.now
  conditions : r.interpreter.conditions = q.interpreter.conditions
  settings : r.interpreter.settings = q.interpreter.settings
  token : r.token.isSome = q.token.isSome
  worker : r.worker = q.worker ∨ (q.worker = .absent ∧ r.worker = .fresh)

namespace Controlled

theorem refl (q : Queue) : Controlled q q :=
  ⟨rfl, rfl, rfl, rfl, rfl, rfl, .inl rfl⟩

theorem trans {q r s : Queue} (h : Controlled q r) (g : Controlled r s) : Controlled q s where
  engine := g.engine.trans h.engine
  completed := g.completed.trans h.completed
  now := g.now.trans h.now
  conditions := g.conditions.trans h.conditions
  settings := g.settings.trans h.settings
  token := g.token.trans h.token
  worker := by
    rcases h.worker with hw | ⟨ha, hf⟩
    · rw [← hw]; exact g.worker
    · rcases g.worker with hg | ⟨hg, _⟩
      · exact .inr ⟨ha, hg.trans hf⟩
      · rw [hf] at hg; cases hg

end Controlled

theorem controlled_record (q : Queue) (e : Event) : Controlled q (q.record e) :=
  ⟨rfl, rfl, rfl, rfl, rfl, rfl, .inl rfl⟩

theorem controlled_kick (q : Queue) : Controlled q q.kick := by
  unfold kick
  split
  · next ha => exact ⟨rfl, rfl, rfl, rfl, rfl, rfl, .inr ⟨ha, rfl⟩⟩
  · exact .refl q

theorem controlled_cancelInFlight (q : Queue) (reason : String) :
    Controlled q (q.cancelInFlight reason) :=
  ⟨rfl, rfl, rfl, rfl, rfl, by cases h : q.token <;> simp [cancelInFlight, h], .inl rfl⟩

section Answered

variable {answer : Call → Queue → Queue}

theorem controlled_reactWithin (ha : ∀ c q, Controlled q (answer c q)) (o : Occasion)
    (bound : Nat) (q : Queue) : Controlled q (q.reactWithin answer o bound) := by
  induction bound generalizing q with
  | zero => exact .refl q
  | succ bound ih =>
    unfold reactWithin
    cases h : q.takeOrder? o with
    | none => exact .refl q
    | some cr =>
      obtain ⟨c, r⟩ := cr
      have hr : Controlled q r := by
        obtain ⟨_, _, he⟩ := Option.map_eq_some_iff.mp h
        cases he
        exact ⟨rfl, rfl, rfl, rfl, rfl, rfl, .inl rfl⟩
      exact (hr.trans (ha c r)).trans (ih _)

theorem controlled_announce (ha : ∀ c q, Controlled q (answer c q)) (q : Queue) :
    Controlled q (q.announce answer) := by
  unfold announce react
  exact ((controlled_record q _).trans (controlled_reactWithin ha _ _ _)).trans
    (controlled_reactWithin ha _ _ _)

theorem controlled_become (ha : ∀ c q, Controlled q (answer c q)) (status : Status) (q : Queue) :
    Controlled q (q.become answer status) := by
  have hs (r : Queue) : Controlled r { r with status, settled := status ≠ .running } :=
    ⟨rfl, rfl, rfl, rfl, rfl, rfl, .inl rfl⟩
  unfold become log
  split
  · exact (hs q).trans (controlled_announce ha _)
  · exact ((controlled_record q _).trans (hs _)).trans (controlled_announce ha _)

theorem controlled_callVia (ha : ∀ c q, Controlled q (answer c q)) (c : Call) (q : Queue) :
    Controlled q (q.callVia answer c) := by
  have hb (status : Status) (r : Queue) : Controlled r (r.become answer status).kick :=
    (controlled_become ha status r).trans (controlled_kick _)
  have hn (r : Queue) : Controlled r (r.announce answer).kick :=
    (controlled_announce ha r).trans (controlled_kick _)
  have hc := controlled_cancelInFlight q
  have hp (r : Queue) (pending : List Line) : Controlled r { r with pending } :=
    ⟨rfl, rfl, rfl, rfl, rfl, rfl, .inl rfl⟩
  have he (r : Queue) (pending : List Line) : Controlled r { r with
      pending, current := none, fault := none, interpreter := r.interpreter.reset } :=
    ⟨rfl, rfl, rfl, rfl, rfl, rfl, .inl rfl⟩
  cases c with
  | run lines => exact ((hc _).trans (he _ lines)).trans (hb _ _)
  | enqueue line => exact (hp q _).trans (hn _)
  | setQueue lines => exact (hp q _).trans (hn _)
  | start =>
    simp only [callVia]
    split
    · exact hb _ _
    · exact hb _ _
    · exact .refl q
  | pause =>
    simp only [callVia]
    split
    · exact (hc _).trans (controlled_become ha _ _)
    · exact .refl q
  | resume =>
    simp only [callVia]
    split
    · exact hb _ _
    · exact .refl q
  | stop => exact ((hc _).trans (he _ [])).trans (controlled_become ha _ _)

end Answered

theorem controlled_callWithin (depth : Nat) (c : Call) (q : Queue) :
    Controlled q (q.callWithin depth c) := by
  induction depth generalizing c q with
  | zero => exact controlled_callVia (fun _ q => .refl q) c q
  | succ depth ih => exact controlled_callVia (fun c q => ih c q) c q

/-- A control call, with all calls that observers answer it with, leaves these alone. -/
theorem controlled_call (c : Call) (q : Queue) : Controlled q (q.call c) :=
  controlled_callWithin _ c q

end Courier.Queue
