import Mathlib.Order.Bounds.Basic
import Courier.Proofs.Engine.Uncancelled
import Courier.Proofs.Queue.Reachable

namespace Courier

namespace World

/-- The numbers of cells, up to a bound, that are free one after another in a direction. -/
def freeAhead (w : World) (s : Stance) (sign : Int) (bound : Int) : Set Nat :=
  {k | (k : Int) ≤ bound ∧ ∀ i : Nat, 0 < i → i ≤ k → w.canEnter (s.ahead (sign*i))}

variable {w : World} {s : Stance} {sign : Int}

theorem zero_mem_freeAhead {bound : Int} (h : 0 ≤ bound) : 0 ∈ w.freeAhead s sign bound := by
  refine ⟨h, ?_⟩
  intro i hi hk
  exact absurd (Nat.lt_of_lt_of_le hi hk) (Nat.lt_irrefl 0)

theorem stroll_isGreatest (w : World) (s : Stance) (sign : Int) (n : Nat) :
    IsGreatest (w.freeAhead s sign n) (w.stroll sign n s).1 := by
  induction n generalizing s with
  | zero => exact ⟨zero_mem_freeAhead le_rfl, fun k hk => Int.ofNat_le.mp hk.1⟩
  | succ n ih =>
    unfold stroll
    by_cases he : w.canEnter (s.ahead sign)
    · rw [if_pos he]
      have hnext (i : Nat) :
          Stance.ahead { s with cell := s.ahead sign } (sign*i) = s.ahead (sign*(i+1 : Nat)) := by
        rw [Stance.ahead_ahead]
        push_cast
        rw [mul_add, mul_one, add_comm]
      obtain ⟨⟨hle, hfree⟩, hmost⟩ := ih { s with cell := s.ahead sign }
      constructor
      · refine ⟨by push_cast; omega, ?_⟩
        rintro (_ | _ | i) hi hk
        · omega
        · simpa using he
        · rw [← hnext]
          exact hfree (i+1) (by omega) (by dsimp only at hk; omega)
      · rintro (_ | k) ⟨hk, hall⟩
        · exact Nat.zero_le _
        · refine Nat.succ_le_succ (hmost ⟨by push_cast at hk; omega, ?_⟩)
          intro i hi hik
          rw [hnext]
          exact hall (i+1) (by omega) (by omega)
    · rw [if_neg he]
      refine ⟨zero_mem_freeAhead (Int.natCast_nonneg _), ?_⟩
      rintro (_ | k) ⟨_, hall⟩
      · exact le_rfl
      · have hfirst := hall 1 (by omega) (by omega)
        exact absurd (by simpa using hfirst) he

/-- However far a move is meant to go, there is no more room than the grid has. -/
theorem freeAhead_le (hs : sign = 1 ∨ sign = -1) {bound : Int} {k : Nat}
    (hk : k ∈ w.freeAhead s sign bound) : k ≤ max w.width w.height := by
  obtain ⟨_, hfree⟩ := hk
  rcases Nat.eq_zero_or_pos k with rfl | hpos
  · exact Nat.zero_le _
  · have hfirst := inBounds_of_canEnter (hfree 1 (by omega) hpos)
    have hlast := inBounds_of_canEnter (hfree k hpos le_rfl)
    simp only [inBounds, Bool.and_eq_true, decide_eq_true_eq] at hfirst hlast
    rcases hs with rfl | rfl <;> cases hh : s.heading <;>
      simp only [Stance.ahead, hh, Heading.delta] at hfirst hlast <;> omega

end World

namespace Performance

variable {p : Performance}

/-- An undisturbed move under settings whose pauses end goes on to the last of the free cells, as
many as it is asked for, and there it stands as before. -/
theorem move_stops_at_obstacle (hp : p.IsClear) (hm : p.engine.settings.IsStriding)
    (backward : Bool) {n : Int} (hn : 1 ≤ n) :
    let s := p.engine.committed
    let sign : Int := if backward then -1 else 1
    ∃ (k : Nat) (q : Performance), p.perform (.move backward n) = (.ok (.moved k), q) ∧
      IsGreatest (p.engine.world.freeAhead s sign n) k ∧
      k ≤ max p.engine.world.width p.engine.world.height ∧
      q.engine.committed = { s with cell := s.ahead (sign*k) } := by
  intro s sign
  obtain ⟨interval, hi, _⟩ := hm.frameInterval
  have hsteps : (max 1 n).toNat = n := by omega
  have hc := perform_concludes hp (.move backward n)
  obtain ⟨hanswer, hstance, _⟩ :=
    Action.achieves_move (w := p.engine.world) hm.isSettling hi s backward n
  have hk := World.stroll_isGreatest p.engine.world s sign (max 1 n).toNat
  rw [hsteps] at hk
  refine ⟨_, (p.perform (.move backward n)).2, ?_, hk,
    World.freeAhead_le (sign_cases backward) hk.1, ?_⟩
  · exact Prod.ext (hc.answer.trans hanswer) rfl
  · rw [hc.engine, Engine.committed_applyAll]
    exact hstance.trans (World.stroll_ahead _ _ _ _)

theorem move_stops_at_obstacle_corridor :
    ∃ q, (start .corridor).perform (.move false 1000000) = (.ok (.moved 1), q) ∧
      q.engine.committed.cell = (1, 0) := by
  have hm := MotionSettings.standard_isTimely
  obtain ⟨k, q, hq, ⟨hfree, hmost⟩, hroom, hc⟩ := move_stops_at_obstacle (start_isClear .corridor)
    hm.toIsStriding false (n := 1000000) (by norm_num)
  have hone : 1 ≤ k := by
    refine hmost ⟨by norm_num, ?_⟩
    intro i hi hk
    obtain rfl : i = 1 := by omega
    rfl
  have htwo : ¬2 ≤ k := by
    intro hk
    exact absurd (hfree.2 2 (by omega) hk) (by decide)
  obtain rfl : k = 1 := by omega
  refine ⟨q, hq, ?_⟩
  rw [hc]
  rfl

/-- A move whose frames are too many to divide the time among them does not even begin. -/
theorem move_stuck {n : Int} {f : NumberFault} (hp : p.IsClear)
    (hn : p.engine.settings.frames = .int n) (hi : p.engine.settings.frameInterval = .error f)
    (he : p.engine.world.canEnter (p.engine.committed.ahead 1)) :
    (p.perform (.move false 1)).1 = .error (.number f) := by
  rw [(perform_concludes hp _).answer]
  exact Action.whole_stuck hn hi he

theorem move_stops_at_obstacle_vast :
    let e : Engine :=
      { Engine.corridor with settings := { MotionSettings.instant with frames := .int (10^309) } }
    IsGreatest (e.world.freeAhead e.committed 1 1) 1 ∧
      ((start e).perform (.move false 1)).1 = .error (.number .outOfRange) := by
  intro e
  have hn : Number.toBinary64 (.int (10^309)) = .error .outOfRange :=
    Number.toBinary64_of_infinite (by decide +kernel)
  exact ⟨World.stroll_isGreatest e.world e.committed 1 1, move_stuck (start_isClear e) rfl
    (MotionSettings.frameInterval_large hn rfl rfl) rfl⟩

end Performance

end Courier
