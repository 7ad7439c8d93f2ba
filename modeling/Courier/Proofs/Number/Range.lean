import Mathlib.Tactic.Ring
import Courier.Number.Basic

namespace Courier

theorem le_roundHalfEven (n d : Nat) : n / d ≤ roundHalfEven n d := by
  unfold roundHalfEven
  dsimp only
  split <;> omega

theorem roundHalfEven_le (n d : Nat) : roundHalfEven n d ≤ n / d + 1 := by
  unfold roundHalfEven
  dsimp only
  split <;> omega

/-- From an odd number on, a half and more is rounded up. -/
theorem roundHalfEven_odd {n d : Nat} (ho : n / d % 2 = 1) :
    roundHalfEven n d = n / d + 1 ↔ d ≤ 2*(n % d) := by
  unfold roundHalfEven
  dsimp only
  split <;> omega

/-- From the middle between the largest quotient of 53 bits and `2^53` on, a quotient is rounded to
`2^53`. -/
theorem roundHalfEven_eq_top {n x : Nat} (hx : 0 < x) (hf : n / (2*x) < 2^53) :
    roundHalfEven n (2*x) = 2^53 ↔ (2^54 - 1)*x ≤ n := by
  have hle := roundHalfEven_le n (2*x)
  have hodd := roundHalfEven_odd (n := n) (d := 2*x)
  have hdiv := Nat.div_add_mod n (2*x)
  have hr : n % (2*x) < 2*x := Nat.mod_lt n (by omega)
  generalize roundHalfEven n (2*x) = m at *
  generalize n / (2*x) = f at *
  generalize n % (2*x) = r at *
  by_cases hlast : f = 2^53 - 1
  · subst hlast
    have hup := hodd (by decide)
    omega
  · have hmul : 2*x*f ≤ 2*x*(2^53 - 2) := Nat.mul_le_mul_left _ (by omega)
    omega

namespace Binary64

variable {n d : Nat}

/-- The exponent that a quotient is rounded with. -/
def exponent (n d : Nat) : Nat := Nat.log2 (n/d) - 52

/-- The significand of a quotient, before it is carried into the next binade. -/
def significand (n d : Nat) : Nat := roundHalfEven n (d*2^exponent n d)

/-- A quotient lies in the binade of its exponent. -/
theorem exponent_bounds (hd : 0 < d) :
    n < d*2^(exponent n d + 53) ∧ (exponent n d = 0 ∨ d*2^(exponent n d + 52) ≤ n) := by
  by_cases h0 : n / d = 0
  · have he : exponent n d = 0 := by
      rw [exponent, h0]
      rfl
    have hlt : n < d := (Nat.div_eq_zero_iff_lt hd).mp h0
    refine ⟨?_, .inl he⟩
    exact Nat.lt_of_lt_of_le hlt (Nat.le_mul_of_pos_right d (Nat.two_pow_pos _))
  · obtain ⟨hle, hlt⟩ := (Nat.log2_eq_iff h0).mp rfl
    constructor
    · rw [Nat.mul_comm, ← Nat.div_lt_iff_lt_mul hd]
      exact Nat.lt_of_lt_of_le hlt (Nat.pow_le_pow_right (by decide) (by rw [exponent]; omega))
    · by_cases hz : exponent n d = 0
      · exact .inl hz
      · refine .inr ?_
        have he : exponent n d + 52 = Nat.log2 (n/d) := by
          unfold exponent at hz ⊢
          omega
        rw [he, Nat.mul_comm]
        exact (Nat.le_div_iff_mul_le hd).mp hle

/-- So its significand has full precision, unless the exponent is least. -/
theorem quotient_bounds (hd : 0 < d) :
    n / (d*2^exponent n d) < 2^53 ∧ (exponent n d = 0 ∨ 2^52 ≤ n / (d*2^exponent n d)) := by
  obtain ⟨hlt, hle⟩ := exponent_bounds (n := n) hd
  have hpos : 0 < d*2^exponent n d := Nat.mul_pos hd (Nat.two_pow_pos _)
  constructor
  · rw [Nat.div_lt_iff_lt_mul hpos]
    calc n < d*2^(exponent n d + 53) := hlt
      _ = 2^53*(d*2^exponent n d) := by rw [Nat.pow_add]; ring
  · refine hle.imp_right fun h => (Nat.le_div_iff_mul_le hpos).mpr ?_
    calc 2^52*(d*2^exponent n d) = d*2^(exponent n d + 52) := by rw [Nat.pow_add]; ring
      _ ≤ n := h

theorem nearest_eq (s : Bool) (n d : Nat) :
    nearest s n d =
      if significand n d = 2^53 then
        if h : Canonical (2^52) (exponent n d + 1) then .finite s (2^52) (exponent n d + 1) h
        else .infinite s
      else
        if h : Canonical (significand n d) (exponent n d) then
          .finite s (significand n d) (exponent n d) h
        else .infinite s := by
  have hm : roundHalfEven n (d <<< (Nat.log2 (n/d) - 52)) = significand n d := by
    rw [significand, exponent, Nat.shiftLeft_eq]
  unfold nearest
  dsimp only
  rw [hm]
  by_cases h : significand n d = 2^53
  · have h' : significand n d = 1 <<< 53 := h
    simp only [if_pos h, if_pos h']
    rfl
  · have h' : ¬significand n d = 1 <<< 53 := h
    simp only [if_neg h, if_neg h']
    rfl

/-- Only the exponent can be out of bounds. -/
theorem nearest_isFinite_iff_exponent (s : Bool) (hd : 0 < d) :
    (nearest s n d).isFinite ↔
      (if significand n d = 2^53 then exponent n d + 1 else exponent n d) ≤ 2045 := by
  obtain ⟨hlt, hge⟩ := quotient_bounds (n := n) hd
  have hle := roundHalfEven_le n (d*2^exponent n d)
  have hge' := le_roundHalfEven n (d*2^exponent n d)
  rw [nearest_eq]
  by_cases h : significand n d = 2^53
  · rw [if_pos h, if_pos h]
    by_cases hq : exponent n d + 1 ≤ 2045
    · have hc : Canonical (2^52) (exponent n d + 1) := ⟨by decide, .inr (Nat.le_refl _), hq⟩
      rw [dif_pos hc]
      simp [isFinite, hq]
    · rw [dif_neg fun hc : Canonical _ _ => hq hc.2.2]
      simp [isFinite, hq]
  · rw [if_neg h, if_neg h]
    unfold significand at h ⊢
    by_cases hq : exponent n d ≤ 2045
    · have hc : Canonical (roundHalfEven n (d*2^exponent n d)) (exponent n d) := by
        refine ⟨by rw [Nat.one_shiftLeft]; omega, ?_, hq⟩
        exact hge.imp_right fun h52 => by rw [Nat.one_shiftLeft]; omega
      rw [dif_pos hc]
      simp [isFinite, hq]
    · rw [dif_neg fun hc : Canonical _ _ => hq hc.2.2]
      simp [isFinite, hq]

/-- The middle between the largest finite number and the power of two after it is rounded to an
infinity. The exponent is a variable, so that no step evaluates the power. -/
theorem nearest_isFinite_iff (s : Bool) (hd : 0 < d) {k : Nat} (hk : k = 2044) :
    (nearest s n d).isFinite ↔ n < d*((2^54 - 1)*2^k) := by
  obtain ⟨hlt, hge⟩ := exponent_bounds (n := n) hd
  obtain ⟨hf, _⟩ := quotient_bounds (n := n) hd
  have hpos : 0 < d*2^k := Nat.mul_pos hd (Nat.two_pow_pos _)
  have htop : d*((2^54 - 1)*2^k) = (2^54 - 1)*(d*2^k) := by ring
  rw [nearest_isFinite_iff_exponent s hd, htop]
  unfold significand
  rcases Nat.lt_trichotomy (exponent n d) (k+1) with hq | hq | hq
  · -- below the last binade
    have hbound : n < 2^53*(d*2^k) := by
      calc n < d*2^(exponent n d + 53) := hlt
        _ ≤ d*2^(k+53) := Nat.mul_le_mul_left d (Nat.pow_le_pow_right (by decide) (by omega))
        _ = 2^53*(d*2^k) := by ring
    have hfits : (if roundHalfEven n (d*2^exponent n d) = 2^53 then exponent n d + 1
        else exponent n d) ≤ 2045 := by
      split <;> omega
    exact ⟨fun _ => by omega, fun _ => hfits⟩
  · -- in the last binade only the significand decides
    have hunit : d*2^exponent n d = 2*(d*2^k) := by
      rw [hq, Nat.pow_succ]
      ring
    rw [hunit] at hf ⊢
    have htop := roundHalfEven_eq_top hpos hf
    rw [hq]
    split <;> omega
  · -- beyond it
    have hbound : 2^54*(d*2^k) ≤ n := by
      calc 2^54*(d*2^k) = d*2^(k+54) := by ring
        _ ≤ d*2^(exponent n d + 52) :=
          Nat.mul_le_mul_left d (Nat.pow_le_pow_right (by decide) (by omega))
        _ ≤ n := hge.resolve_left (by omega)
    have hexceeds : ¬(if roundHalfEven n (d*2^exponent n d) = 2^53 then exponent n d + 1
        else exponent n d) ≤ 2045 := by
      split <;> omega
    exact ⟨fun h => absurd h hexceeds, fun h => by omega⟩

-- The exponent is a variable, so that no step evaluates the power.
theorem unit_eq {k : Nat} (hk : k = 1074) : unit = 2^k := by
  rw [unit, ← hk, Nat.one_shiftLeft]

theorem unit_pos : 0 < unit := by
  obtain ⟨k, hk⟩ : ∃ k, k = 1074 := ⟨_, rfl⟩
  rw [unit_eq hk]
  exact Nat.two_pow_pos k

/-- The least natural that is no binary64 number, not even rounded. -/
def overflow : Nat := 2^1024 - 2^970

theorem overflow_eq {k : Nat} (hk : k = 970) : overflow = (2^54 - 1)*2^k := by
  have hpow : 2^1024 = 2^54*2^k := by
    rw [← Nat.pow_add, hk]
  rw [overflow, Nat.sub_mul, Nat.one_mul, hpow, hk]

theorem pow_lt_overflow {k : Nat} (hk : k ≤ 1023) : 2^k < overflow := by
  obtain ⟨e, he⟩ : ∃ e, e = 970 := ⟨_, rfl⟩
  rw [overflow_eq he]
  calc 2^k ≤ 2^(53+e) := Nat.pow_le_pow_right (by decide) (by omega)
    _ = 2^53*2^e := Nat.pow_add 2 53 e
    _ < (2^54 - 1)*2^e := Nat.mul_lt_mul_of_pos_right (by decide) (Nat.two_pow_pos e)

/-- The quotient of two integers in units. -/
theorem nearest_units_isFinite_iff (s : Bool) (hd : 0 < d) :
    (nearest s (n*unit) d).isFinite ↔ n < overflow*d := by
  obtain ⟨k, hk⟩ : ∃ k, k = 970 := ⟨_, rfl⟩
  have hunit : unit = 2^(2044-k) := unit_eq (by omega)
  have hpow : 2^2044 = 2^k*2^(2044-k) := by
    rw [← Nat.pow_add]
    congr 1
    omega
  rw [nearest_isFinite_iff s hd rfl, hunit, overflow_eq hk, hpow]
  have hmul : d*((2^54 - 1)*(2^k*2^(2044-k))) = (2^54 - 1)*2^k*d*2^(2044-k) := by ring
  rw [hmul]
  exact Nat.mul_lt_mul_right (Nat.two_pow_pos _)

theorem ofInt_isFinite_iff {i : Int} : (ofInt i).isFinite ↔ i.natAbs < overflow := by
  rw [ofInt, nearest_units_isFinite_iff _ Nat.one_pos, Nat.mul_one]

end Binary64

namespace Number

open Binary64 (overflow)

/-- Integers are in range below the overflow, and binary64 numbers always. -/
def IsInRange (n : Number) : Prop := ∀ i, n = .int i → i.natAbs < overflow

theorem toBinary64_int (i : Int) :
    toBinary64 (.int i) =
      if i.natAbs < overflow then .ok (Binary64.ofInt i) else .error .outOfRange := by
  unfold toBinary64
  dsimp only
  by_cases h : i.natAbs < overflow
  · rw [if_pos h, if_pos (Binary64.ofInt_isFinite_iff.mpr h)]
  · rw [if_neg h, if_neg (mt Binary64.ofInt_isFinite_iff.mp h)]

end Number

end Courier
