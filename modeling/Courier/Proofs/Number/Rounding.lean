import Courier.Proofs.Number.Exact
import Courier.Proofs.Number.Span

namespace Courier

/-- A common factor has no part in rounding. -/
theorem roundHalfEven_mul_mul (n d : Nat) {c : Nat} (hc : 0 < c) :
    roundHalfEven (n*c) (d*c) = roundHalfEven n d := by
  have hlt : d*c < 2*(n % d*c) ↔ d < 2*(n % d) := by
    rw [← Nat.mul_assoc]
    exact Nat.mul_lt_mul_right hc
  have heq : 2*(n % d*c) = d*c ↔ 2*(n % d) = d := by
    rw [← Nat.mul_assoc]
    exact Nat.mul_left_inj hc.ne'
  unfold roundHalfEven
  rw [Nat.mul_div_mul_right _ _ hc, Nat.mul_mod_mul_right]
  simp only [hlt, heq]

namespace Binary64

variable {s : Bool} {m q : Nat} {i : Int} {x : Binary64}

theorem exponent_canonical (h : Canonical m q) : exponent (m <<< q) 1 = q := by
  obtain ⟨hlt, hge, _⟩ := h
  rw [Nat.one_shiftLeft] at hlt
  have hlt52 (hm : m ≠ 0) : Nat.log2 m < 53 := (Nat.log2_lt hm).mpr hlt
  rw [exponent, Nat.div_one, Nat.shiftLeft_eq]
  rcases hge with rfl | hge
  · by_cases hm : m = 0
    · subst hm
      rfl
    · have := hlt52 hm
      rw [Nat.pow_zero, Nat.mul_one]
      omega
  · rw [Nat.one_shiftLeft] at hge
    have hlog : Nat.log2 (m*2^q) = 52+q := by
      refine (Nat.log2_eq_iff (Nat.mul_ne_zero (by omega) (Nat.two_pow_pos q).ne')).mpr ⟨?_, ?_⟩
      · rw [Nat.pow_add]
        exact Nat.mul_le_mul_right _ hge
      · rw [show 52+q+1 = 53+q by omega, Nat.pow_add]
        exact Nat.mul_lt_mul_of_pos_right hlt (Nat.two_pow_pos q)
    omega

/-- A binary64 number is its own rounding. -/
theorem nearest_canonical (s : Bool) (h : Canonical m q) :
    nearest s (m <<< q) 1 = .finite s m q h := by
  have hm : significand (m <<< q) 1 = m := by
    rw [significand, exponent_canonical h, Nat.one_mul, Nat.shiftLeft_eq]
    exact roundHalfEven_mul m (Nat.two_pow_pos q)
  have hne : m ≠ 2^53 := Nat.ne_of_lt h.1
  rw [nearest_eq]
  simp only [hm, exponent_canonical h, if_neg hne, dif_pos h]

theorem nearest_mul_self (s : Bool) (n : Nat) {d : Nat} (hd : 0 < d) :
    nearest s (n*d) d = nearest s n 1 := by
  have he : exponent (n*d) d = exponent n 1 := by
    rw [exponent, exponent, Nat.mul_div_cancel n hd, Nat.div_one]
  have hm : significand (n*d) d = significand n 1 := by
    rw [significand, significand, he, Nat.mul_comm d, Nat.one_mul]
    exact roundHalfEven_mul_mul n _ hd
  rw [nearest_eq, nearest_eq]
  simp only [he, hm]

/-- A product with one is not rounded. -/
theorem mul_ofInt_one (x : Binary64) : x.mul (ofInt 1) = x := by
  obtain ⟨m, q, h, hone, hm⟩ := ofInt_small (i := 1) (by decide)
  rw [Int.natAbs_one, Nat.one_mul] at hm
  have hpos : m ≠ 0 := by
    rintro rfl
    have := unit_pos
    rw [Nat.zero_shiftLeft] at hm
    omega
  rw [hone]
  cases x with
  | nan => rfl
  | infinite s => cases s <;> simp [mul, hpos]
  | finite s k r hc =>
    have hmul : (k*m) <<< (r+q) = (k <<< r)*unit := by
      rw [← hm]
      simp only [Nat.shiftLeft_eq]
      rw [Nat.pow_add]
      ring
    have hsign : (s != decide ((1 : Int) < 0)) = s := by simp
    simp only [mul]
    rw [hmul, nearest_mul_self _ _ unit_pos, hsign, nearest_canonical]

theorem natAbs_units (s : Bool) (m q : Nat) : (units s m q).natAbs = m <<< q := by
  unfold units
  cases s with
  | false => exact Int.natAbs_natCast _
  | true => exact (Int.natAbs_neg _).trans (Int.natAbs_natCast _)

theorem unit_ne_zero : (unit : Int) ≠ 0 := Int.natCast_ne_zero.mpr unit_pos.ne'

/-- A finite number is whole if it is a multiple of the unit. -/
theorem toInt?_finite {h : Canonical m q} :
    (finite s m q h).toInt? = some i ↔ units s m q = i*(unit : Int) := by
  rw [toInt?]
  generalize units s m q = u
  constructor
  · intro hi
    split at hi
    · next hdvd =>
      cases hi
      exact (Int.ediv_mul_cancel (Int.dvd_of_emod_eq_zero hdvd)).symm
    · cases hi
  · rintro rfl
    rw [Int.mul_emod_left, if_pos rfl, Int.mul_ediv_cancel _ unit_ne_zero]

theorem shift_of_toInt? {h : Canonical m q} (hi : (finite s m q h).toInt? = some i) :
    m <<< q = i.natAbs*unit := by
  rw [← natAbs_units s m q, toInt?_finite.mp hi, Int.natAbs_mul, Int.natAbs_natCast]

theorem isFinite_of_toInt? (hi : x.toInt? = some i) : x.isFinite := by
  cases x with
  | nan => cases hi
  | infinite s => cases hi
  | finite s m q h => rfl

/-- A whole number is its own nearest integer. -/
theorem round?_of_toInt? (hi : x.toInt? = some i) : x.round? = some i := by
  cases x with
  | nan => cases hi
  | infinite s => cases hi
  | finite s m q h =>
    have hm := shift_of_toInt? hi
    have hu : (if s then -(i.natAbs : Int) else i.natAbs)*(unit : Int) = i*unit := by
      rw [← toInt?_finite.mp hi, units, hm]
      cases s with
      | false => rw [if_neg (by simp), if_neg (by simp), Int.natCast_mul]
      | true => rw [if_pos rfl, if_pos rfl, Int.natCast_mul, Int.neg_mul]
    rw [round?_finite h hm, Int.eq_of_mul_eq_mul_right unit_ne_zero hu]

/-- The number that the integer of a whole number is converted to: the same one, up to the sign of
a zero. -/
theorem ofInt_of_toInt? {h : Canonical m q} (hi : (finite s m q h).toInt? = some i) :
    ofInt i = .finite (decide (i < 0)) m q h := by
  rw [ofInt, ← shift_of_toInt? hi]
  exact nearest_canonical _ h

theorem toInt?_ofInt_of_toInt? (hi : x.toInt? = some i) : (ofInt i).toInt? = some i := by
  cases x with
  | nan => cases hi
  | infinite s => cases hi
  | finite s m q h =>
    rw [ofInt_of_toInt? hi]
    exact toInt?_signed h (shift_of_toInt? hi)

/-- The integer nearest to a finite number is a binary64 number. -/
theorem exists_round (hx : x.isFinite) :
    ∃ i, x.round? = some i ∧ (ofInt i).toInt? = some i := by
  cases x with
  | nan => cases hx
  | infinite s => cases hx
  | finite s m q h =>
    obtain ⟨k, hk⟩ : ∃ k, k = 1074 := ⟨_, rfl⟩
    rcases Nat.lt_or_ge q k with hq | hq
    · -- what may have a fraction is small
      refine ⟨_, rfl, toInt?_ofInt ?_⟩
      have hle := roundHalfEven_le (m <<< q) unit
      have hdiv : m <<< q / unit < 2^52 := by
        rw [Nat.div_lt_iff_lt_mul unit_pos, unit_eq hk, Nat.shiftLeft_eq]
        calc m*2^q < 2^53*2^q := Nat.mul_lt_mul_of_pos_right h.1 (Nat.two_pow_pos q)
          _ ≤ 2^53*2^(k-1) := Nat.mul_le_mul_left _ (Nat.pow_le_pow_right (by decide) (by omega))
          _ = 2^52*2^k := by rw [← Nat.pow_add, ← Nat.pow_add]; congr 1; omega
      split <;> omega
    · have hdvd : unit ∣ m <<< q := by
        rw [unit_eq hk, Nat.shiftLeft_eq]
        exact Nat.dvd_mul_left_of_dvd (Nat.pow_dvd_pow 2 hq) m
      obtain ⟨i, hi⟩ := toInt?_of_dvd h hdvd (s := s)
      exact ⟨i, round?_of_toInt? hi, toInt?_ofInt_of_toInt? hi⟩

end Binary64

namespace Number

variable {x : Binary64} {i : Int}

/-- A binary64 number equals the integer that it is. -/
theorem eq_int_iff : Number.eq (.float x) (.int i) ↔ x.toInt? = some i := by
  cases x with
  | nan => simp [Number.eq, compare?, Binary64.toInt?]
  | infinite s => cases s <;> simp [Number.eq, compare?, Binary64.toInt?]
  | finite s m q h => exact (compare_eq _ _).trans Binary64.toInt?_finite.symm

theorem int_eq_iff : Number.eq (.int i) (.float x) ↔ x.toInt? = some i := by
  cases x with
  | nan => simp [Number.eq, compare?, Binary64.toInt?]
  | infinite s => cases s <;> simp [Number.eq, compare?, Binary64.toInt?]
  | finite s m q h =>
    exact (compare_eq _ _).trans (eq_comm.trans Binary64.toInt?_finite.symm)

theorem compare_mul_unit (i j : Int) :
    compare (i*(Binary64.unit : Int)) (j*Binary64.unit) = compare i j := by
  have hpos : (0 : Int) < Binary64.unit := Int.natCast_pos.mpr Binary64.unit_pos
  rcases lt_trichotomy i j with hlt | rfl | hgt
  · rw [compare_lt_iff_lt.mpr hlt, compare_lt_iff_lt]
    exact Int.mul_lt_mul_of_pos_right hlt hpos
  · rw [compare_eq_iff_eq.mpr rfl, compare_eq_iff_eq.mpr rfl]
  · rw [compare_gt_iff_gt.mpr hgt, compare_gt_iff_gt]
    exact Int.mul_lt_mul_of_pos_right hgt hpos

/-- A whole number compares as its integer does. -/
theorem compare?_of_toInt? (h : x.toInt? = some i) (n : Number) :
    compare? (.float x) n = compare? (.int i) n := by
  cases x with
  | nan => cases h
  | infinite s => cases h
  | finite s m q hc =>
    have hu := Binary64.toInt?_finite.mp h
    cases n with
    | int j => simp only [compare?, hu, compare_mul_unit]
    | float y => cases y <;> simp only [compare?, Binary64.compare?, hu]

/-- The integer part of a whole number is the number. -/
theorem truncate_of_toInt? (h : x.toInt? = some i) : truncate (.float x) = .ok i := by
  cases x with
  | nan => cases h
  | infinite s => cases h
  | finite s m q hc =>
    simp only [truncate, Binary64.truncate?, Binary64.toInt?_finite.mp h]
    rw [Int.mul_tdiv_cancel _ Binary64.unit_ne_zero]

theorem round_of_round? (h : x.round? = some i) : round (.float x) = .ok i := by
  simp only [round, h]

/-- An integer that is a binary64 number is converted to it. -/
theorem toBinary64_of_toInt? (h : (Binary64.ofInt i).toInt? = some i) :
    toBinary64 (.int i) = .ok (.ofInt i) :=
  toBinary64_of_finite rfl (Binary64.isFinite_of_toInt? h)

end Number

end Courier
