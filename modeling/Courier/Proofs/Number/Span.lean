import Mathlib.Order.Compare
import Courier.Fault
import Courier.Proofs.Number.Range

namespace Courier

namespace Number

theorem compare_lt (a b : Int) : (compare a b == .lt) = true ↔ a < b := by
  rw [beq_iff_eq, compare_lt_iff_lt]

theorem compare_le (a b : Int) : (compare a b == .lt || compare a b == .eq) = true ↔ a ≤ b := by
  rw [Bool.or_eq_true, beq_iff_eq, beq_iff_eq, compare_lt_iff_lt, compare_eq_iff_eq,
    le_iff_lt_or_eq]

theorem compare_eq (a b : Int) : (compare a b == .eq) = true ↔ a = b := by
  rw [beq_iff_eq, compare_eq_iff_eq]

theorem lt_int {i j : Int} : lt (.int i) (.int j) ↔ i < j := compare_lt i j

theorem le_int {i j : Int} : le (.int i) (.int j) ↔ i ≤ j := compare_le i j

def IsNan (n : Number) : Prop := n = .float .nan

def IsInfinite (n : Number) : Prop := ∃ s, n = .float (.infinite s)

def IsZero (n : Number) : Prop := Number.eq n (.int 0)

/-- What a timer can wait: a number that is at least zero, so not NaN. -/
def IsSpan (n : Number) : Prop := Number.le (.int 0) n

instance (n : Number) : Decidable n.IsNan := inferInstanceAs (Decidable (_ = _))

instance (n : Number) : Decidable n.IsZero := inferInstanceAs (Decidable (_ = true))

instance (n : Number) : Decidable n.IsSpan := inferInstanceAs (Decidable (_ = true))

variable {n : Number} {i : Int} {s : Bool} {m q : Nat} {h : Binary64.Canonical m q}

theorem units_nonneg : 0 ≤ Binary64.units s m q ↔ s = false ∨ m = 0 := by
  have hpow := Nat.two_pow_pos q
  unfold Binary64.units
  rw [Nat.shiftLeft_eq]
  cases s with
  | false => simp only [Bool.false_eq_true, if_false, Int.natCast_nonneg, true_or]
  | true =>
    rcases Nat.eq_zero_or_pos m with rfl | hm
    · simp
    · have hmul := Nat.mul_pos hm hpow
      simp only [if_true, Bool.true_eq_false, false_or]
      omega

theorem units_eq_zero : Binary64.units s m q = 0 ↔ m = 0 := by
  have hpow := Nat.two_pow_pos q
  unfold Binary64.units
  rw [Nat.shiftLeft_eq]
  split <;> simp

theorem isSpan_int : (int i).IsSpan ↔ 0 ≤ i := compare_le 0 i

theorem isSpan_infinite : (float (.infinite s)).IsSpan ↔ s = false := by
  cases s <;> decide

theorem isSpan_units : (float (.finite s m q h)).IsSpan ↔ 0 ≤ Binary64.units s m q := by
  refine (compare_le _ _).trans ?_
  rw [Int.zero_mul]

theorem isSpan_finite : (float (.finite s m q h)).IsSpan ↔ s = false ∨ m = 0 :=
  isSpan_units.trans units_nonneg

theorem isZero_int : (int i).IsZero ↔ i = 0 := compare_eq i 0

theorem not_isZero_infinite : ¬(float (.infinite s)).IsZero := by
  cases s <;> decide

theorem isZero_units : (float (.finite s m q h)).IsZero ↔ Binary64.units s m q = 0 := by
  refine (compare_eq _ _).trans ?_
  rw [Int.zero_mul]

theorem isZero_finite : (float (.finite s m q h)).IsZero ↔ m = 0 :=
  isZero_units.trans units_eq_zero

theorem not_isInfinite_int : ¬(int i).IsInfinite := by
  rintro ⟨s, hs⟩
  cases hs

theorem not_isInfinite_finite : ¬(float (.finite s m q h)).IsInfinite := by
  rintro ⟨s, hs⟩
  cases hs

theorem isInfinite_infinite : (float (.infinite s)).IsInfinite := ⟨s, rfl⟩

theorem IsSpan.not_isNan (hn : n.IsSpan) : ¬n.IsNan := by
  rintro rfl
  cases hn

theorem nan_lt (n : Number) : (float .nan).lt n = false := by
  cases n <;> rfl

theorem lt_nan (n : Number) : n.lt (.float .nan) = false := by
  cases n with
  | int i => rfl
  | float x => cases x <;> rfl

/-- What is not less than zero is a span, unless it is NaN. -/
theorem isSpan_of_lt_zero (hn : n.lt (.int 0) = false) : n.IsNan ∨ n.IsSpan := by
  rw [← Bool.not_eq_true] at hn
  cases n with
  | int i => exact .inr (isSpan_int.mpr (by simpa using mt (compare_lt i 0).mpr hn))
  | float x =>
    cases x with
    | nan => exact .inl rfl
    | infinite s =>
      cases s with
      | false => exact .inr rfl
      | true => exact absurd rfl hn
    | finite s m q h =>
      have hle := mt (compare_lt _ _).mpr hn
      rw [Int.zero_mul, not_lt] at hle
      exact .inr (isSpan_units.mpr hle)

theorem isSpan_of_pos (hn : lt (.int 0) n) : n.IsSpan := by
  unfold lt at hn
  unfold IsSpan le
  rw [hn, Bool.true_or]

theorem not_le_of_pos (hn : lt (.int 0) n) : n.le (.int 0) = false := by
  rw [← Bool.not_eq_true]
  cases n with
  | int i => exact mt (compare_le i 0).mp (not_le.mpr ((compare_lt 0 i).mp hn))
  | float x =>
    cases x with
    | nan => cases hn
    | infinite s => cases s <;> [decide; cases hn]
    | finite s m q h =>
      have hlt := (compare_lt _ _).mp hn
      rw [Int.zero_mul] at hlt
      exact mt (compare_le _ _).mp (by rw [Int.zero_mul]; omega)

/-- What is not less than one is a span other than zero, unless it is NaN. -/
theorem isSpan_of_lt_one (hn : n.lt (.int 1) = false) : n.IsNan ∨ n.IsSpan ∧ ¬n.IsZero := by
  rw [← Bool.not_eq_true] at hn
  cases n with
  | int i =>
    have hi := mt (compare_lt i 1).mpr hn
    rw [isSpan_int, isZero_int]
    exact .inr (by omega)
  | float x =>
    cases x with
    | nan => exact .inl rfl
    | infinite s =>
      cases s with
      | false => exact .inr ⟨rfl, not_isZero_infinite⟩
      | true => exact absurd rfl hn
    | finite s m q h =>
      have hle := mt (compare_lt _ _).mpr hn
      have hunit : (0 : Int) < Binary64.unit := Int.natCast_pos.mpr Binary64.unit_pos
      rw [Int.one_mul] at hle
      rw [isSpan_units, isZero_units]
      exact .inr (by omega)

end Number

namespace Binary64

open Number

variable {n d : Nat} {s : Bool} {x y : Binary64}

theorem nearest_zero (s : Bool) (d : Nat) : nearest s 0 d = zero s := by
  have hr (k : Nat) : roundHalfEven 0 k = 0 := by simp [roundHalfEven]
  rw [nearest_eq, significand, hr, exponent, Nat.zero_div]
  rfl

/-- A quotient that is at least one unit is not rounded to zero. -/
theorem nearest_cases (s : Bool) (hd : 0 < d) :
    nearest s n d = .infinite s ∨
      ∃ m q h, nearest s n d = .finite s m q h ∧ (d ≤ n → m ≠ 0) := by
  rw [nearest_eq]
  split
  · split
    · next h => exact .inr ⟨_, _, h, rfl, fun _ => by decide⟩
    · exact .inl rfl
  · split
    · next h =>
      refine .inr ⟨_, _, h, rfl, fun hn => ?_⟩
      have hle := le_roundHalfEven n (d*2^exponent n d)
      have hone : 1 ≤ n / (d*2^exponent n d) := by
        rcases (quotient_bounds (n := n) hd).2 with hq | hq
        · rw [hq, Nat.pow_zero, Nat.mul_one]
          exact (Nat.one_le_div_iff hd).mpr hn
        · omega
      unfold significand
      omega
    · exact .inl rfl

theorem isSpan_nearest (hd : 0 < d) (hs : s = false ∨ n = 0) :
    (float (nearest s n d)).IsSpan := by
  rcases hs with rfl | rfl
  · rcases nearest_cases (n := n) false hd with hx | ⟨m, q, h, hx, _⟩
    · rw [hx]
      rfl
    · rw [hx]
      exact isSpan_finite.mpr (.inl rfl)
  · rw [nearest_zero]
    exact isSpan_finite.mpr (.inr rfl)

theorem isZero_nearest_iff (hd : 0 < d) (hn : n = 0 ∨ d ≤ n) :
    (float (nearest s n d)).IsZero ↔ n = 0 := by
  rcases hn with rfl | hn
  · rw [nearest_zero]
    exact iff_of_true (isZero_finite.mpr rfl) rfl
  · refine iff_of_false ?_ (by omega)
    rcases nearest_cases (n := n) s hd with hx | ⟨m, q, h, hx, hm⟩
    · rw [hx]
      exact not_isZero_infinite
    · rw [hx, isZero_finite]
      exact hm hn

/-- A span is the positive infinity, a positive number or a zero of any sign. -/
theorem span_cases (hx : (float x).IsSpan) :
    x = .infinite false ∨ ∃ s m q h, x = .finite s m q h ∧ (s = false ∨ m = 0) := by
  cases x with
  | nan => cases hx
  | infinite s => exact .inl (congrArg infinite (isSpan_infinite.mp hx))
  | finite s m q h => exact .inr ⟨s, m, q, h, rfl, isSpan_finite.mp hx⟩

/-- The quotient of two spans, the second of which is not zero. -/
theorem div_isSpan_iff (hx : (float x).IsSpan) (hy : (float y).IsSpan) (hz : ¬(float y).IsZero) :
    (float (x.div y)).IsSpan ↔ ¬((float x).IsInfinite ∧ (float y).IsInfinite) := by
  obtain rfl | ⟨t, k, r, hc, rfl, ht⟩ := span_cases hy
  · obtain rfl | ⟨s, m, q, hc', rfl, hs⟩ := span_cases hx
    · exact iff_of_false (by decide) (fun h => h ⟨isInfinite_infinite, isInfinite_infinite⟩)
    · exact iff_of_true (isSpan_finite.mpr (.inr rfl)) (fun h => not_isInfinite_finite h.1)
  · refine iff_of_true ?_ (fun h => not_isInfinite_finite h.2)
    have hk := mt isZero_finite.mpr hz
    obtain rfl := ht.resolve_right hk
    obtain rfl | ⟨s, m, q, hc', rfl, hs⟩ := span_cases hx
    · rfl
    · have hdiv : (finite s m q hc').div (finite false k r hc) =
          nearest (s != false) ((m <<< q)*unit) (k <<< r) := if_neg hk
      rw [hdiv]
      refine isSpan_nearest ?_ ?_
      · rw [Nat.shiftLeft_eq]
        exact Nat.mul_pos (Nat.pos_of_ne_zero hk) (Nat.two_pow_pos r)
      · refine hs.imp ?_ ?_
        · rintro rfl
          rfl
        · rintro rfl
          simp

/-- The product of two spans. -/
theorem mul_isSpan_iff (hx : (float x).IsSpan) (hy : (float y).IsSpan) :
    (float (x.mul y)).IsSpan ↔ ¬((float x).IsInfinite ∧ (float y).IsZero) ∧
      ¬((float x).IsZero ∧ (float y).IsInfinite) := by
  obtain rfl | ⟨s, m, q, hc, rfl, hs⟩ := span_cases hx
  · obtain rfl | ⟨t, k, r, hc', rfl, ht⟩ := span_cases hy
    · exact iff_of_true rfl ⟨fun h => not_isZero_infinite h.2, fun h => not_isZero_infinite h.1⟩
    · have hmul : (infinite false).mul (finite t k r hc') =
          if k = 0 then nan else infinite (false != t) := rfl
      rw [hmul, isZero_finite]
      by_cases hk : k = 0
      · rw [if_pos hk]
        exact iff_of_false (by decide) (fun h => h.1 ⟨isInfinite_infinite, hk⟩)
      · obtain rfl := ht.resolve_right hk
        rw [if_neg hk]
        exact iff_of_true rfl ⟨fun h => hk h.2, fun h => not_isZero_infinite h.1⟩
  · obtain rfl | ⟨t, k, r, hc', rfl, ht⟩ := span_cases hy
    · have hmul : (finite s m q hc).mul (infinite false) =
          if m = 0 then nan else infinite (s != false) := rfl
      rw [hmul, isZero_finite]
      by_cases hm : m = 0
      · rw [if_pos hm]
        exact iff_of_false (by decide) (fun h => h.2 ⟨hm, isInfinite_infinite⟩)
      · obtain rfl := hs.resolve_right hm
        rw [if_neg hm]
        exact iff_of_true rfl ⟨fun h => not_isZero_infinite h.2, fun h => hm h.1⟩
    · have hmul : (finite s m q hc).mul (finite t k r hc') =
          nearest (s != t) ((m*k) <<< (q+r)) unit := rfl
      rw [hmul]
      refine iff_of_true (isSpan_nearest unit_pos ?_)
        ⟨fun h => not_isInfinite_finite h.1, fun h => not_isInfinite_finite h.2⟩
      obtain rfl | rfl := hs
      · obtain rfl | rfl := ht
        · exact .inl rfl
        · exact .inr (by simp)
      · exact .inr (by simp)

end Binary64

namespace Number

open Binary64 (overflow)

variable {x y z : Number} {w : Binary64}

/-- Two numbers are special in the same ways, and the first is a span if the second is. -/
structure Alike (x y : Number) : Prop where
  isNan : x.IsNan ↔ y.IsNan
  isInfinite : x.IsInfinite ↔ y.IsInfinite
  isZero : x.IsZero ↔ y.IsZero
  isSpan : y.IsSpan → x.IsSpan

theorem Alike.refl (x : Number) : Alike x x := ⟨.rfl, .rfl, .rfl, id⟩

theorem alike_toBinary64 (h : x.toBinary64 = .ok w) : Alike (float w) x := by
  cases x with
  | float v =>
    cases h
    exact .refl _
  | int i =>
    rw [toBinary64_int] at h
    split at h
    · next hi =>
      cases h
      have hfin := Binary64.ofInt_isFinite_iff.mpr hi
      refine ⟨?_, ?_, ?_, ?_⟩
      · refine iff_of_false (fun hn => ?_) (fun hn => by cases hn)
        rw [float.inj hn] at hfin
        cases hfin
      · refine iff_of_false ?_ not_isInfinite_int
        rintro ⟨s, hs⟩
        rw [float.inj hs] at hfin
        cases hfin
      · have hunit := Binary64.unit_pos
        rw [Binary64.ofInt, Binary64.isZero_nearest_iff Nat.one_pos (by omega), isZero_int,
          Nat.mul_eq_zero, Int.natAbs_eq_zero]
        omega
      · intro hs
        have hneg : ¬i < 0 := Int.not_lt.mpr (isSpan_int.mp hs)
        exact Binary64.isSpan_nearest Nat.one_pos (.inl (decide_eq_false hneg))
    · cases h

/-- An operation on binary64 numbers takes both operands there. -/
theorem rounded_eq_ok {α : Type} {f : Binary64 → Binary64 → α} {a : α} :
    (do return f (← x.toBinary64) (← y.toBinary64)) = Except.ok a ↔
      ∃ u v, x.toBinary64 = .ok u ∧ y.toBinary64 = .ok v ∧ a = f u v := by
  constructor
  · intro h
    obtain ⟨u, hu, h⟩ := bind_eq_ok h
    obtain ⟨v, hv, h⟩ := bind_eq_ok h
    cases h
    exact ⟨u, v, hu, hv, rfl⟩
  · rintro ⟨u, v, hu, hv, rfl⟩
    rw [hu, hv]
    rfl

/-- A quotient is rounded once, from integers or from binary64 numbers. -/
theorem div_cases (h : x.div y = .ok w) :
    (∃ i j, x = .int i ∧ y = .int j ∧ w = Binary64.nearest
      (decide (i < 0) != decide (j < 0)) (i.natAbs*Binary64.unit) j.natAbs) ∨
      ∃ u v, x.toBinary64 = .ok u ∧ y.toBinary64 = .ok v ∧ w = u.div v := by
  cases x with
  | float u => exact .inr (rounded_eq_ok.mp (by cases y <;> exact h))
  | int i =>
    cases y with
    | float v => exact .inr (rounded_eq_ok.mp h)
    | int j =>
      left
      simp only [div] at h
      split at h
      · cases h
        exact ⟨i, j, rfl, rfl, rfl⟩
      · cases h

/-- Two numbers whose quotient can be computed. -/
def HasQuotient : Number → Number → Prop
  | .int i, .int j => i.natAbs < overflow*j.natAbs
  | x, y => x.IsInRange ∧ y.IsInRange

theorem toBinary64_isOk_iff : (∃ w, x.toBinary64 = .ok w) ↔ x.IsInRange := by
  cases x with
  | float v => exact iff_of_true ⟨v, rfl⟩ (fun i hi => by cases hi)
  | int i =>
    rw [toBinary64_int]
    by_cases hi : i.natAbs < overflow
    · refine iff_of_true ⟨_, if_pos hi⟩ ?_
      rintro j ⟨⟩
      exact hi
    · refine iff_of_false ?_ (fun h => hi (h i rfl))
      rw [if_neg hi]
      rintro ⟨w, hw⟩
      cases hw

theorem div_isOk_iff (hy : ¬y.IsZero) : (∃ w, x.div y = .ok w) ↔ HasQuotient x y := by
  have hpair : (∃ w, (do return Binary64.div (← x.toBinary64) (← y.toBinary64)) = Except.ok w) ↔
      x.IsInRange ∧ y.IsInRange := by
    rw [← toBinary64_isOk_iff, ← toBinary64_isOk_iff]
    constructor
    · rintro ⟨w, h⟩
      obtain ⟨u, v, hu, hv, _⟩ := rounded_eq_ok.mp h
      exact ⟨⟨u, hu⟩, ⟨v, hv⟩⟩
    · rintro ⟨⟨u, hu⟩, ⟨v, hv⟩⟩
      exact ⟨u.div v, rounded_eq_ok.mpr ⟨u, v, hu, hv, rfl⟩⟩
  cases x with
  | float u => cases y <;> exact hpair
  | int i =>
    cases y with
    | float v => exact hpair
    | int j =>
      have hj : 0 < j.natAbs := by
        rw [isZero_int] at hy
        omega
      unfold HasQuotient
      dsimp only
      rw [← Binary64.nearest_units_isFinite_iff (decide (i < 0) != decide (j < 0)) hj]
      simp only [div]
      split
      · next h => exact iff_of_true ⟨_, rfl⟩ h
      · next h => exact iff_of_false (by rintro ⟨w, hw⟩; cases hw) h

/-- A quotient of spans is a span, unless both are infinite. -/
theorem quotient_isSpan_iff (hx : x.IsSpan) (hy : y.IsSpan) (hz : ¬y.IsZero)
    (h : x.div y = .ok w) : (float w).IsSpan ↔ ¬(x.IsInfinite ∧ y.IsInfinite) := by
  rcases div_cases h with ⟨i, j, rfl, rfl, rfl⟩ | ⟨u, v, hu, hv, rfl⟩
  · rw [isZero_int] at hz
    have hi : ¬i < 0 := Int.not_lt.mpr (isSpan_int.mp hx)
    have hj : ¬j < 0 := Int.not_lt.mpr (isSpan_int.mp hy)
    refine iff_of_true (Binary64.isSpan_nearest (by omega) (.inl ?_))
      (fun h => not_isInfinite_int h.1)
    rw [decide_eq_false hi, decide_eq_false hj]
    rfl
  · have hux := alike_toBinary64 hu
    have hvy := alike_toBinary64 hv
    rw [← hux.isInfinite, ← hvy.isInfinite]
    exact Binary64.div_isSpan_iff (hux.isSpan hx) (hvy.isSpan hy) (mt hvy.isZero.mp hz)

theorem quotient_of_nan (hn : x.IsNan ∨ y.IsNan) (h : x.div y = .ok w) : w = .nan := by
  rcases div_cases h with ⟨i, j, rfl, rfl, _⟩ | ⟨u, v, hu, hv, rfl⟩
  · rcases hn with hn | hn <;> cases hn
  · rw [← (alike_toBinary64 hu).isNan, ← (alike_toBinary64 hv).isNan] at hn
    rcases hn with hn | hn
    · cases hn
      rfl
    · cases hn
      cases u <;> rfl

theorem mul_cases (h : x.mul y = .ok z) :
    (∃ i j, x = .int i ∧ y = .int j ∧ z = .int (i*j)) ∨
      ∃ u v, x.toBinary64 = .ok u ∧ y.toBinary64 = .ok v ∧ z = .float (u.mul v) := by
  cases x with
  | float u => exact .inr (rounded_eq_ok.mp (by cases y <;> exact h))
  | int i =>
    cases y with
    | float v => exact .inr (rounded_eq_ok.mp h)
    | int j =>
      cases h
      exact .inl ⟨i, j, rfl, rfl, rfl⟩

/-- A product of spans is a span, unless one is infinite and the other one zero. -/
theorem product_isSpan_iff (hx : x.IsSpan) (hy : y.IsSpan) (h : x.mul y = .ok z) :
    z.IsSpan ↔ ¬(x.IsInfinite ∧ y.IsZero) ∧ ¬(x.IsZero ∧ y.IsInfinite) := by
  rcases mul_cases h with ⟨i, j, rfl, rfl, rfl⟩ | ⟨u, v, hu, hv, rfl⟩
  · refine iff_of_true (isSpan_int.mpr ?_)
      ⟨fun h => not_isInfinite_int h.1, fun h => not_isInfinite_int h.2⟩
    exact Int.mul_nonneg (isSpan_int.mp hx) (isSpan_int.mp hy)
  · have hux := alike_toBinary64 hu
    have hvy := alike_toBinary64 hv
    rw [← hux.isInfinite, ← hvy.isInfinite, ← hux.isZero, ← hvy.isZero]
    exact Binary64.mul_isSpan_iff (hux.isSpan hx) (hvy.isSpan hy)

theorem product_of_nan (hn : x.IsNan ∨ y.IsNan) (h : x.mul y = .ok z) : z.IsNan := by
  rcases mul_cases h with ⟨i, j, rfl, rfl, _⟩ | ⟨u, v, hu, hv, rfl⟩
  · rcases hn with hn | hn <;> cases hn
  · rw [← (alike_toBinary64 hu).isNan, ← (alike_toBinary64 hv).isNan] at hn
    rcases hn with hn | hn
    · cases hn
      rfl
    · cases hn
      cases u <;> rfl

end Number

end Courier
