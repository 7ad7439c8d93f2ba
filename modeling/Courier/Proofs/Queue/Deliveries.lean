import Courier.Proofs.Engine.Handling
import Courier.Proofs.Queue.Reachable

namespace Courier

theorem Engine.listen_iterate (e : Engine) (n : Nat) :
    Engine.listen^[n] e = { e with listeners := e.listeners ++ List.replicate n 0 } := by
  induction n generalizing e with
  | zero => simp
  | succ n ih =>
    rw [Function.iterate_succ_apply, ih]
    simp [listen, List.replicate_succ]

namespace Queue

/-- What was taken and delivered, as the results tell it. -/
def handlings (q : Queue) : List Handling := q.completed.toList.filterMap StepResult.handling?

/-- The results tell what became of the cargo. -/
def accounting (listeners : Nat) : Law where
  Holds e rs := e.Accounts listeners (rs.filterMap StepResult.handling?)
  Suits e i a := a.Carries i.command e.committed

section Accounting

variable {n : Nat} {e : Engine} {rs : List StepResult} {i : Instruction}

theorem admits_accounting {x : Stretch} (h : (accounting n).Holds e rs)
    (hx : x.Carries i e.committed) : (accounting n).Admits e rs i x := by
  have ha : e.Accounts n (rs.filterMap StepResult.handling?) := h
  refine ⟨?_, ?_, ?_⟩
  · intro hn
    have hgo := ha.applyAll (hx.goes hn)
    rwa [Option.toList_none, List.append_nil] at hgo
  · intro a hn
    have hdo := ha.applyAll (hx.done a hn)
    have hr : (rs ++ [StepResult.ofAnswer i a]).filterMap StepResult.handling? =
        rs.filterMap StepResult.handling? ++ (StepResult.ofAnswer i a).handling?.toList := by
      cases hg : (StepResult.ofAnswer i a).handling? <;> simp [hg]
    rw [← hr] at hdo
    exact hdo
  · intro seconds a hn
    have hp := hx.pause seconds a hn
    rwa [← Engine.committed_applyAll] at hp

theorem accounting_isKept (n : Nat) : (accounting n).IsKept where
  shown _ _ h := ⟨h.cargo, h.completed, h.listeners⟩
  idle _ _ r h hr := by
    have hn : r.handling? = none := StepResult.handling?_of_ineffective (by simp [hr])
    simpa [accounting, hn] using h
  begins _ _ _ _ h ha := admits_accounting h (carries_begin ha)
  resumes _ _ _ _ h ha := admits_accounting h (carries_resume ha)

end Accounting

/-- A queue whose agent starts without cargo, and whose listeners are there from the start. -/
theorem abides_accounting {w : World} {pose : Option PoseEntry} {m : MotionSettings} {e : Engine}
    (he : Engine.make w pose m = .ok e) (hc : e.committed.isCarrying = false)
    (wait : WaitSettings) (conditions : List (String × Condition)) (n : Nat) :
    Abides (accounting n) (make (.make wait conditions) (Engine.listen^[n] e)) := by
  obtain ⟨s, _, rfl⟩ := make_eq_ok he
  rw [Engine.listen_iterate]
  have htable : (Interpreter.make wait conditions).conditions ≠ [] := by
    unfold Interpreter.make Condition.table
    dsimp only
    split <;> simp_all [Condition.standard]
  refine ⟨⟨⟨?_, rfl, ?_⟩, htable⟩, rfl⟩
  · simpa [make, Handling.carry] using hc.symm
  · simp [make]

/-- Control calls and orders of observers, in any interleaving with the worker, neither lose nor
duplicate a delivery. -/
theorem deliveries_accounted {w : World} {pose : Option PoseEntry} {m : MotionSettings}
    {e : Engine} (he : Engine.make w pose m = .ok e) (hc : e.committed.isCarrying = false)
    (wait : WaitSettings) (conditions : List (String × Condition)) (listeners : Nat)
    {ts : List Turn} (ht : ∀ t ∈ ts, ∀ p, t ≠ .reset p) {q : Queue}
    (hq : q = (make (.make wait conditions) (Engine.listen^[listeners] e)).after ts) :
    q.handlings.IsChain (· ≠ ·) ∧ q.handlings.head? ≠ some .delivered ∧
      (q.engine.committed.isCarrying = true ↔
        q.handlings.count .taken = q.handlings.count .delivered + 1) ∧
      q.engine.completed = q.handlings.count .delivered ∧
      q.engine.listeners = List.replicate listeners (q.handlings.count .delivered) := by
  have ha := (abides_after (accounting_isKept listeners)
    (abides_accounting he hc wait conditions listeners) ht).lawful.holds
  rw [← hq] at ha
  have hs : q.engine.Accounts listeners q.handlings := ha
  obtain ⟨hchain, hhead, hcount⟩ := Handling.carry_alternates hs.cargo
  refine ⟨hchain, ?_, ?_, hs.completed, ?_⟩
  · intro hd
    exact hhead .delivered hd rfl
  · rw [Bool.toNat_false, Nat.zero_add] at hcount
    cases hb : q.engine.committed.isCarrying <;> rw [hb] at hcount <;> simp at hcount ⊢ <;> omega
  · rw [hs.listeners, hs.completed]

/-- A delivery, and a pickup that is stopped on its way. -/
def delivery : List Turn :=
  [.call (.run [.text "PICKUP", .text "DROPOFF", .text "PICKUP"])] ++ List.replicate 23 .work ++
    [.call .stop, .work]

end Queue

/-- A pickup cell on one side of the start, and a dropoff cell on another one. -/
def World.kiosk : World :=
  .ofFn 2 2 (fun i j => ([[.dropoff, .empty], [.empty, .pickup]].getD j []).getD i .empty) []
    Nat.two_pos Nat.two_pos

def Engine.kiosk : Engine where
  world := .kiosk
  settings := .standard
  committed := .start 2
  shown := .still (.start 2)
  observers := []
  completed := 0

theorem Queue.deliveries_accounted_kiosk :
    Engine.make .kiosk none .standard = .ok .kiosk ∧ Engine.kiosk.committed.isCarrying = false ∧
      (∀ t ∈ delivery, ∀ p, t ≠ .reset p) ∧
      ∃ q, q = (make (.make .standard []) (Engine.listen^[2] .kiosk)).after delivery ∧
        q.handlings = [.taken, .delivered] ∧ q.handlings.IsChain (· ≠ ·) ∧
        q.engine.listeners = List.replicate 2 (q.handlings.count .delivered) := by
  have he : Engine.make .kiosk none .standard = .ok .kiosk := rfl
  have hc : Engine.kiosk.committed.isCarrying = false := rfl
  have ht : ∀ t ∈ delivery, ∀ p, t ≠ .reset p := by
    intro t ht p hp
    subst hp
    simp [delivery] at ht
  obtain ⟨hchain, _, _, _, hl⟩ := deliveries_accounted he hc .standard [] 2 ht rfl
  exact ⟨he, hc, ht, _, rfl, by decide +kernel, hchain, hl⟩

end Courier
