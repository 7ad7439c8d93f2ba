import Courier.Engine.Action
import Courier.Proofs.Pose.Exact

namespace Courier

section Glide

open Courier.Frame

variable {w : World} {s : Stance} {e : Int} {t : ℚ}

theorem Stance.pose_isLegal (hs : w.canEnter s.cell) : (s.pose ℚ).IsLegal w where
  cell := by
    have hc : (s.pose ℚ).cell = s.cell := Prod.ext (roundEven_intCast _) (roundEven_intCast _)
    rwa [hc]
  direction_nonneg := Int.cast_nonneg (Int.natCast_nonneg _)
  direction_lt := s.heading.toNat_lt

theorem glidePose_x (origin target : Stance) (t : ℚ) :
    (glidePose origin target t).x = origin.cell.1 + (target.cell.1 - origin.cell.1)*t := rfl

theorem glidePose_y (origin target : Stance) (t : ℚ) :
    (glidePose origin target t).y = origin.cell.2 + (target.cell.2 - origin.cell.2)*t := rfl

theorem glidePose_offset (origin target : Stance) (t : ℚ) :
    (glidePose origin target t).offset origin.cell =
      t^2*((target.cell.1 - origin.cell.1)^2 + (target.cell.2 - origin.cell.2)^2) := by
  unfold Pose.offset
  rw [glidePose_x, glidePose_y]
  ring

/-- A glide leads away from its origin. -/
theorem glidePose_offset_le (origin target : Stance) {t u : ℚ} (h0 : 0 ≤ t) (h : t ≤ u) :
    (glidePose origin target t).offset origin.cell ≤
      (glidePose origin target u).offset origin.cell := by
  rw [glidePose_offset, glidePose_offset]
  exact mul_le_mul_of_nonneg_right (pow_le_pow_left₀ h0 h 2) (by positivity)

/-- A glide that does not turn keeps its direction. -/
theorem glidePose_step_direction (s : Stance) (c : Cell) (t : ℚ) :
    (glidePose s { s with cell := c } t).direction = s.heading.toNat := by
  have hm : Scalar.modFour (s.heading.toNat + (0 : Int)*t : ℚ) = s.heading.toNat := by
    have hl : (0 : ℚ) ≤ s.heading.toNat := Nat.cast_nonneg _
    have hu := s.heading.toNat_lt
    rw [modFour_of_range (k := 0) (by simp) (by simpa using hu)]
    simp
  unfold glidePose
  rw [Heading.shortestTurn_self]
  dsimp only
  split
  · exact hm
  · rfl

/-- On the way to a neighboring cell, poses are on one of the two. -/
theorem glidePose_step_cell (he : e = 1 ∨ e = -1) (h0 : 0 ≤ t) (h1 : t ≤ 1) :
    (glidePose s { s with cell := s.ahead e } t).cell = s.cell ∨
      (glidePose s { s with cell := s.ahead e } t).cell = s.ahead e := by
  have hunit {d : Int} (hd : d = 1 ∨ d = -1) : e*d = 1 ∨ e*d = -1 := by
    rcases he with rfl | rfl <;> rcases hd with rfl | rfl <;> decide
  have hx : (glidePose s { s with cell := s.ahead e } t).x =
      s.cell.1 + (e*s.heading.delta.1 : Int)*t := by
    rw [glidePose_x]
    simp only [Stance.ahead]
    push_cast
    ring
  have hy : (glidePose s { s with cell := s.ahead e } t).y =
      s.cell.2 + (e*s.heading.delta.2 : Int)*t := by
    rw [glidePose_y]
    simp only [Stance.ahead]
    push_cast
    ring
  unfold Pose.cell
  rw [hx, hy]
  rcases s.heading.delta_axis with ⟨hz, hd⟩ | ⟨hz, hd⟩
  · have hr := roundEven_toward (i := s.cell.2) (hunit hd) h0 h1
    simpa [Stance.ahead, hz, roundEven_intCast, Prod.ext_iff] using hr
  · have hr := roundEven_toward (i := s.cell.1) (hunit hd) h0 h1
    simpa [Stance.ahead, hz, roundEven_intCast, Prod.ext_iff] using hr

theorem glidePose_step_isLegal (he : e = 1 ∨ e = -1) (h0 : 0 ≤ t) (h1 : t ≤ 1)
    (hs : w.canEnter s.cell) (hc : w.canEnter (s.ahead e)) :
    (glidePose s { s with cell := s.ahead e } t).IsLegal w where
  cell := by
    rcases glidePose_step_cell he h0 h1 with h | h
    · rwa [h]
    · rwa [h]
  direction_nonneg := by
    rw [glidePose_step_direction]
    exact (s.pose_isLegal hs).direction_nonneg
  direction_lt := by
    rw [glidePose_step_direction]
    exact (s.pose_isLegal hs).direction_lt

/-- A turn goes through the directions from the heading on, around the circle. -/
theorem glidePose_turn_direction (he : e = 1 ∨ e = -1) (h1 : t ≤ 1) :
    let d := (glidePose s { s with heading := s.heading.turned e } t).direction
    0 ≤ d ∧ d < 4 ∧ ∃ m : Int, d = s.heading.toNat + e*t - 4*m := by
  unfold glidePose
  rw [Heading.shortestTurn_turned s.heading he]
  dsimp only
  split
  · exact ⟨modFour_nonneg _, modFour_lt _, _, rfl⟩
  · next hlt =>
    have ht : t = 1 := by
      have h : ¬t < 1 := by simpa [Scalar.lt, Scalar.ofInt] using hlt
      linarith
    refine ⟨Int.cast_nonneg (Int.natCast_nonneg _), Heading.toNat_lt _,
      (s.heading.toNat + e)/4, ?_⟩
    rw [ht, mul_one]
    exact s.heading.toNat_turned e

theorem glidePose_turn_place (s : Stance) (h : Heading) (t : ℚ) :
    (glidePose s { s with heading := h } t).x = s.cell.1 ∧
      (glidePose s { s with heading := h } t).y = s.cell.2 := by
  rw [glidePose_x, glidePose_y]
  simp

theorem glidePose_turn_isLegal (he : e = 1 ∨ e = -1) (h1 : t ≤ 1) (hs : w.canEnter s.cell) :
    (glidePose s { s with heading := s.heading.turned e } t).IsLegal w := by
  obtain ⟨hl, hu, _⟩ := glidePose_turn_direction (s := s) he h1
  refine ⟨?_, hl, hu⟩
  have hc : (glidePose s { s with heading := s.heading.turned e } t).cell = s.cell := by
    obtain ⟨hx, hy⟩ := glidePose_turn_place s (s.heading.turned e) t
    rw [Pose.cell, hx, hy, roundEven_intCast, roundEven_intCast]
  rwa [hc]

/-- Part `t` of a quarter turn is part `t` of the way around, and shows one of the two headings. -/
theorem glidePose_turn_arc (he : e = 1 ∨ e = -1) (h0 : 0 ≤ t) (h1 : t ≤ 1) :
    let p := glidePose s { s with heading := s.heading.turned e } t
    arc s.heading.toNat p.direction = t ∧
      arc p.direction (s.heading.turned e).toNat = 1-t ∧
      (p.heading = s.heading ∨ p.heading = s.heading.turned e) := by
  intro p
  obtain ⟨_, _, m, hm⟩ := glidePose_turn_direction (s := s) he h1
  have habs (x : ℚ) (hx : 0 ≤ x) : |e*x| = x := by
    rcases he with rfl | rfl <;> simp [abs_of_nonneg hx]
  refine ⟨?_, ?_, ?_⟩
  · rw [arc_eq (d := e*t) (k := -m) _ (by rw [habs t h0]; linarith), habs t h0]
    rw [hm]
    push_cast
    ring
  · rw [arc_eq (d := e*(1-t)) (k := m - (s.heading.toNat + e)/4) _
      (by rw [habs (1-t) (by linarith)]; linarith), habs (1-t) (by linarith)]
    rw [hm, s.heading.toNat_turned]
    push_cast
    ring
  · have hr := roundEven_toward (i := s.heading.toNat - 4*m) he h0 h1
    have hd : p.direction = ((s.heading.toNat - 4*m : Int) : ℚ) + e*t := by
      rw [hm]
      push_cast
      ring
    unfold Pose.heading
    rw [hd]
    rcases hr with h | h
    · left
      rw [h, Int.sub_eq_add_neg, ← Int.mul_neg, Heading.ofInt_add_mul, Heading.ofInt_toNat]
    · right
      rw [h, show (s.heading.toNat : Int) - 4*m + e = s.heading.toNat + e + 4*(-m) by ring,
        Heading.ofInt_add_mul]
      rfl

end Glide

namespace Frame

variable {low : ℚ} {w : World} {s : Stance} {e : Int} {k n : Nat}

/-- The first frames of a glide. -/
def glides (origin target : Stance) (k n : Nat) : List Frame :=
  (List.range k).map (fun i => .glide origin target (i+1) n)

theorem glides_succ (origin target : Stance) (k n : Nat) :
    glides origin target (k+1) n = glides origin target k n ++ [.glide origin target (k+1) n] := by
  simp [glides, List.range_succ]

theorem length_glides (origin target : Stance) (k n : Nat) :
    (glides origin target k n).length = k := by
  simp [glides]

/-- Frames on the way of a unit move: on the segment between the two cells, in one direction, and
never nearer to the first cell than before. -/
structure Strides (low : ℚ) (origin target : Stance) (fs : List Frame) : Prop where
  segment : ∀ f ∈ fs, ∃ t : ℚ, 0 ≤ t ∧ t ≤ 1 ∧
    (f.pose low).x = origin.cell.1 + (target.cell.1 - origin.cell.1)*t ∧
    (f.pose low).y = origin.cell.2 + (target.cell.2 - origin.cell.2)*t
  direction : ∀ f ∈ fs, (f.pose low).direction = origin.heading.toNat
  away : fs.Pairwise (fun f g =>
    (f.pose low).offset origin.cell ≤ (g.pose low).offset origin.cell)

/-- Frames on the way of a turn by a quarter, the first so many of `n`: in one place, in equal steps
around the circle from one heading to the other, each showing one of the two. -/
structure Turns (low : ℚ) (n : Nat) (origin target : Stance) (fs : List Frame) : Prop where
  length : fs.length ≤ n
  place : ∀ f ∈ fs, (f.pose low).x = origin.cell.1 ∧ (f.pose low).y = origin.cell.2
  arcs : ∀ (k : Nat) (h : k < fs.length), let p := (fs[k].pose low)
    arc origin.heading.toNat p.direction = (k+1 : Nat)/n ∧
      arc p.direction target.heading.toNat = 1 - (k+1 : Nat)/n ∧
      (p.heading = origin.heading ∨ p.heading = target.heading)

theorem ratio_range (hk : k ≤ n) : (0 : ℚ) ≤ (k : ℚ)/n ∧ (k : ℚ)/n ≤ 1 :=
  ⟨by positivity, div_le_one_of_le₀ (by exact_mod_cast hk) (Nat.cast_nonneg n)⟩

theorem mem_glides {origin target : Stance} {f : Frame} :
    f ∈ glides origin target k n ↔ ∃ i < k, f = .glide origin target (i+1) n := by
  simp [glides, eq_comm]

theorem strides_glides (hk : k ≤ n) :
    Strides low s { s with cell := s.ahead e } (glides s { s with cell := s.ahead e } k n) where
  segment f hf := by
    obtain ⟨i, hi, rfl⟩ := mem_glides.mp hf
    obtain ⟨h0, h1⟩ := ratio_range (k := i+1) (n := n) (by omega)
    exact ⟨_, h0, h1, glidePose_x _ _ _, glidePose_y _ _ _⟩
  direction f hf := by
    obtain ⟨i, _, rfl⟩ := mem_glides.mp hf
    exact glidePose_step_direction s _ _
  away := by
    refine List.pairwise_map.mpr (List.pairwise_lt_range.imp ?_)
    intro i j hij
    refine glidePose_offset_le _ _ (div_nonneg (Nat.cast_nonneg _) (Nat.cast_nonneg _)) ?_
    exact div_le_div_of_nonneg_right (by exact_mod_cast Nat.succ_le_succ hij.le)
      (Nat.cast_nonneg n)

theorem turns_glides (he : e = 1 ∨ e = -1) (hk : k ≤ n) :
    Turns low n s { s with heading := s.heading.turned e }
      (glides s { s with heading := s.heading.turned e } k n) where
  length := by rwa [length_glides]
  place f hf := by
    obtain ⟨i, _, rfl⟩ := mem_glides.mp hf
    exact glidePose_turn_place s _ _
  arcs i hi := by
    have hf : (glides s { s with heading := s.heading.turned e } k n)[i] =
        .glide s { s with heading := s.heading.turned e } (i+1) n := by simp [glides]
    rw [length_glides] at hi
    obtain ⟨h0, h1⟩ := ratio_range (k := i+1) (n := n) (by omega)
    rw [hf]
    exact glidePose_turn_arc he h0 h1

/-- A frame in the place of a stance, in its direction. -/
structure IsAt (low : ℚ) (s : Stance) (f : Frame) : Prop where
  x : (f.pose low).x = s.cell.1
  y : (f.pose low).y = s.cell.2
  direction : (f.pose low).direction = s.heading.toNat

theorem still_isLegal (hs : w.canEnter s.cell) : ((Frame.still s).pose low).IsLegal w :=
  Stance.pose_isLegal hs

theorem still_isAt (s : Stance) : IsAt low s (.still s) := ⟨rfl, rfl, rfl⟩

theorem squashFrame_isAt (s : Stance) (k n : Nat) : IsAt low s (Action.squashFrame s k n) := by
  unfold Action.squashFrame
  split <;> exact ⟨rfl, rfl, rfl⟩

theorem IsAt.isLegal {f : Frame} (h : IsAt low s f) (hs : w.canEnter s.cell) :
    (f.pose low).IsLegal w := by
  have hp := Stance.pose_isLegal hs
  obtain ⟨hx, hy, hd⟩ := h
  refine ⟨?_, ?_, ?_⟩
  · have hc : (f.pose low).cell = (s.pose ℚ).cell := by
      unfold Pose.cell
      rw [hx, hy]
      rfl
    rw [hc]
    exact hp.cell
  · rw [hd]
    exact hp.direction_nonneg
  · rw [hd]
    exact hp.direction_lt

end Frame

end Courier
