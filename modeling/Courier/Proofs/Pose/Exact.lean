import Mathlib.Data.Rat.Floor
import Mathlib.Tactic.FieldSimp
import Mathlib.Tactic.Linarith
import Courier.Pose.Frame
import Courier.Proofs.Number.Exact

namespace Courier

instance : Scalar ℚ where
  ofInt i := i
  ratio k n := k/n
  add := (· + ·)
  sub := (· - ·)
  mul := (· * ·)
  lt a b := decide (a < b)
  modFour x := x - 4*⌊x/4⌋

/-- The integer nearest to a rational number, ties to even. -/
def roundEven (x : ℚ) : Int :=
  let r : Int := roundHalfEven x.num.natAbs x.den
  if x < 0 then -r else r

section Rounding

variable {x : ℚ}

theorem roundEven_neg (x : ℚ) : roundEven (-x) = -roundEven x := by
  unfold roundEven
  rcases lt_trichotomy x 0 with hx | rfl | hx
  · have hn : ¬-x < 0 := by linarith
    simp [hx, hn]
  · simp [roundHalfEven]
  · have hp : ¬x < 0 := by linarith
    simp [hx, hp]

theorem roundEven_of_nonneg {a : Nat} (hl : (a : ℚ) ≤ x) (hu : x ≤ a+1) :
    roundEven x = a ∨ roundEven x = a+1 := by
  have hx : 0 ≤ x := le_trans (Nat.cast_nonneg a) hl
  have hd : (0 : ℚ) < x.den := by exact_mod_cast x.den_pos
  have hnum : (x.num.natAbs : ℚ) = x*x.den := by
    have hn : ((x.num.natAbs : Int) : ℚ) = x.num := by
      rw [Int.natAbs_of_nonneg (Rat.num_nonneg.mpr hx)]
    rw [Rat.mul_den_eq_num, ← hn, Int.cast_natCast]
  have hlow : a*x.den ≤ x.num.natAbs := by
    have h : (a : ℚ)*x.den ≤ x.num.natAbs := by
      rw [hnum]
      exact mul_le_mul_of_nonneg_right hl hd.le
    exact_mod_cast h
  have hhigh : x.num.natAbs ≤ (a+1)*x.den := by
    have h : (x.num.natAbs : ℚ) ≤ (a+1)*x.den := by
      rw [hnum]
      exact mul_le_mul_of_nonneg_right hu hd.le
    exact_mod_cast h
  unfold roundEven
  rw [if_neg (not_lt.mpr hx)]
  rcases Nat.eq_or_lt_of_le hhigh with heq | hlt
  · right
    rw [heq, roundHalfEven_mul _ x.den_pos]
    push_cast
    rfl
  · have hdiv : x.num.natAbs / x.den = a := Nat.div_eq_of_lt_le hlow hlt
    have hge := le_roundHalfEven x.num.natAbs x.den
    have hle := roundHalfEven_le x.num.natAbs x.den
    omega

/-- A number between two neighboring integers is rounded to one of them. -/
theorem roundEven_between {a : Int} (hl : (a : ℚ) ≤ x) (hu : x ≤ a+1) :
    roundEven x = a ∨ roundEven x = a+1 := by
  rcases Int.lt_or_le a 0 with ha | ha
  · obtain ⟨b, rfl⟩ : ∃ b : Nat, a = -(b+1 : Nat) := ⟨(-a-1).toNat, by omega⟩
    push_cast at hl hu
    have h := roundEven_of_nonneg (x := -x) (a := b) (by linarith) (by linarith)
    rw [roundEven_neg] at h
    omega
  · obtain ⟨b, rfl⟩ := Int.eq_ofNat_of_zero_le ha
    exact roundEven_of_nonneg (by exact_mod_cast hl) (by exact_mod_cast hu)

theorem roundEven_intCast (i : Int) : roundEven i = i := by
  have hl := roundEven_between (x := i) (a := i) le_rfl (by linarith)
  have hu := roundEven_between (x := i) (a := i-1) (by push_cast; linarith) (by push_cast; linarith)
  omega

/-- On the way from one integer to the next or to the one before, numbers are rounded to one of the
two. -/
theorem roundEven_toward {i e : Int} (he : e = 1 ∨ e = -1) {t : ℚ} (h0 : 0 ≤ t) (h1 : t ≤ 1) :
    roundEven (i+e*t) = i ∨ roundEven (i+e*t) = i+e := by
  rcases he with rfl | rfl
  · exact roundEven_between (by push_cast; linarith) (by push_cast; linarith)
  · have h := roundEven_between (x := i+(-1 : Int)*t) (a := i-1) (by push_cast; linarith)
      (by push_cast; linarith)
    rw [Int.sub_add_cancel] at h
    exact h.symm

end Rounding

/-- The distance between two directions around the circle. -/
def arc (a b : ℚ) : ℚ :=
  let d : ℚ := Scalar.modFour (b-a)
  min d (4-d)

section Circle

open Scalar

theorem modFour_eq (x : ℚ) : modFour x = x - 4*⌊x/4⌋ := rfl

theorem modFour_nonneg (x : ℚ) : 0 ≤ modFour x := by
  have h := Int.floor_le (x/4)
  rw [modFour_eq]
  linarith

theorem modFour_lt (x : ℚ) : modFour x < 4 := by
  have h := Int.lt_floor_add_one (x/4)
  rw [modFour_eq]
  linarith

theorem modFour_of_range {x : ℚ} {k : Int} (hl : 4*k ≤ x) (hu : x < 4*k+4) :
    modFour x = x - 4*k := by
  have hf : ⌊x/4⌋ = k := by
    rw [Int.floor_eq_iff]
    constructor <;> linarith
  rw [modFour_eq, hf]

/-- Directions that differ by at most half a circle are as far apart as that. -/
theorem arc_eq {a b d : ℚ} {k : Int} (h : b-a = d+4*k) (hd : |d| ≤ 2) : arc a b = |d| := by
  obtain ⟨hl, hu⟩ := abs_le.mp hd
  unfold arc
  rcases lt_or_ge d 0 with hn | hn
  · have hm : modFour (b-a) = d+4 := by
      rw [modFour_of_range (k := k-1) (by push_cast; linarith) (by push_cast; linarith), h]
      push_cast
      ring
    rw [hm, abs_of_neg hn, min_eq_right (by linarith)]
    ring
  · have hm : modFour (b-a) = d := by
      rw [modFour_of_range (k := k) (by linarith) (by linarith), h]
      ring
    rw [hm, abs_of_nonneg hn, min_eq_left (by linarith)]

end Circle

namespace Heading

theorem ofInt_add_mul (i k : Int) : ofInt (i+4*k) = ofInt i := by
  simp [ofInt]

theorem ofInt_toNat (h : Heading) : ofInt h.toNat = h := by
  cases h <;> rfl

theorem toNat_ofInt (i : Int) : ((ofInt i).toNat : Int) = i % 4 := by
  have hr : i % 4 = 0 ∨ i % 4 = 1 ∨ i % 4 = 2 ∨ i % 4 = 3 := by omega
  unfold ofInt
  rcases hr with h | h | h | h <;> rw [h] <;> rfl

/-- A heading turned is as many quarter turns further, less whole circles. -/
theorem toNat_turned (h : Heading) (e : Int) :
    ((h.turned e).toNat : ℚ) = h.toNat + e - 4*((h.toNat + e)/4 : Int) := by
  have hi : ((h.turned e).toNat : Int) = h.toNat + e - 4*((h.toNat + e)/4) := by
    rw [turned, toNat_ofInt]
    omega
  exact_mod_cast congrArg (fun i : Int => (i : ℚ)) hi

theorem toNat_lt (h : Heading) : (h.toNat : ℚ) < 4 := by
  have hn : h.toNat < 4 := by cases h <;> decide
  exact_mod_cast hn

/-- A heading leads along one of the two axes. -/
theorem delta_axis (h : Heading) :
    h.delta.1 = 0 ∧ (h.delta.2 = 1 ∨ h.delta.2 = -1) ∨
      h.delta.2 = 0 ∧ (h.delta.1 = 1 ∨ h.delta.1 = -1) := by
  cases h <;> decide

theorem shortestTurn_self (h : Heading) : h.shortestTurn h = 0 := by
  cases h <;> rfl

theorem shortestTurn_turned (h : Heading) {e : Int} (he : e = 1 ∨ e = -1) :
    h.shortestTurn (h.turned e) = e := by
  rcases he with rfl | rfl <;> cases h <;> rfl

end Heading

namespace Pose

/-- The cell of a pose: its coordinates rounded. -/
def cell (p : Pose ℚ) : Cell := (roundEven p.x, roundEven p.y)

def heading (p : Pose ℚ) : Heading := .ofInt (roundEven p.direction)

/-- The square of the distance from a cell. -/
def offset (p : Pose ℚ) (c : Cell) : ℚ := (p.x-c.1)^2 + (p.y-c.2)^2

/-- A pose whose cell the agent may stand on, with a direction on the circle. -/
structure IsLegal (w : World) (p : Pose ℚ) : Prop where
  cell : w.canEnter p.cell
  direction_nonneg : 0 ≤ p.direction
  direction_lt : p.direction < 4

end Pose

end Courier
