import Courier.Proofs.Number.Rounding

namespace Courier.Binary64

variable {x y z : Binary64} {s t : Bool} {m q n : Nat}

/-- The place of a number among all others: which side of the finite numbers it is on, and its
units. A NaN has no place of its own. -/
def rank : Binary64 → Int × Int
  | .nan => (0, 0)
  | .infinite s => (if s then -1 else 1, 0)
  | .finite s m q _ => (0, units s m q)

theorem lt_iff_rank (hx : x ≠ .nan) (hy : y ≠ .nan) :
    x.lt y ↔ x.rank.1 < y.rank.1 ∨ x.rank.1 = y.rank.1 ∧ x.rank.2 < y.rank.2 := by
  cases x with
  | nan => exact absurd rfl hx
  | infinite s =>
    cases y with
    | nan => exact absurd rfl hy
    | infinite t => cases s <;> cases t <;> decide
    | finite t k r hc => cases s <;> simp [lt, compare?, rank]
  | finite s m q h =>
    cases y with
    | nan => exact absurd rfl hy
    | infinite t => cases t <;> simp [lt, compare?, rank]
    | finite t k r hc => simp [lt, compare?, rank, compare_lt_iff_lt]

theorem le_iff_rank (hx : x ≠ .nan) (hy : y ≠ .nan) :
    x.le y ↔ x.rank.1 < y.rank.1 ∨ x.rank.1 = y.rank.1 ∧ x.rank.2 ≤ y.rank.2 := by
  cases x with
  | nan => exact absurd rfl hx
  | infinite s =>
    cases y with
    | nan => exact absurd rfl hy
    | infinite t => cases s <;> cases t <;> decide
    | finite t k r hc => cases s <;> simp [le, compare?, rank]
  | finite s m q h =>
    cases y with
    | nan => exact absurd rfl hy
    | infinite t => cases t <;> simp [le, compare?, rank]
    | finite t k r hc =>
      refine (Number.compare_le _ _).trans ?_
      simp [rank]

theorem ne_nan_of_le (h : x.le y) : x ≠ .nan ∧ y ≠ .nan := by
  constructor
  · rintro rfl
    cases y <;> cases h
  · rintro rfl
    cases x <;> cases h

theorem le_refl (hx : x ≠ .nan) : x.le x :=
  (le_iff_rank hx hx).mpr (.inr ⟨rfl, Int.le_refl _⟩)

theorem le_trans (h : x.le y) (g : y.le z) : x.le z := by
  obtain ⟨hx, hy⟩ := ne_nan_of_le h
  obtain ⟨_, hz⟩ := ne_nan_of_le g
  have hxy := (le_iff_rank hx hy).mp h
  have hyz := (le_iff_rank hy hz).mp g
  refine (le_iff_rank hx hz).mpr ?_
  omega

theorem le_of_lt (hx : x ≠ .nan) (hy : y ≠ .nan) (h : x.lt y) : x.le y := by
  have hlt := (lt_iff_rank hx hy).mp h
  refine (le_iff_rank hx hy).mpr ?_
  omega

theorem le_of_not_lt (hx : x ≠ .nan) (hy : y ≠ .nan) (h : ¬x.lt y) : y.le x := by
  have hlt := mt (lt_iff_rank hx hy).mpr h
  refine (le_iff_rank hy hx).mpr ?_
  omega

/-- A rounded natural is not less than a binary64 number that the natural is not less than. -/
theorem le_nearest (h : Canonical m q) (hn : m <<< q ≤ n) :
    (finite false m q h).le (nearest false n 1) := by
  have hfinite {k r : Nat} (hc : Canonical k r) (hk : m*2^q ≤ k*2^r) :
      (finite false m q h).le (finite false k r hc) := by
    refine (Number.compare_le _ _).mpr ?_
    simp only [units, Nat.shiftLeft_eq]
    exact Int.ofNat_le.mpr hk
  rw [Nat.shiftLeft_eq] at hn
  obtain ⟨e, he⟩ : ∃ e, e = exponent n 1 := ⟨_, rfl⟩
  have hquotient := le_roundHalfEven n (1*2^e)
  have hsig : m*2^q ≤ significand n 1*2^e := by
    have hpos := Nat.two_pow_pos e
    rw [significand, ← he]
    rcases Nat.lt_or_ge q e with hlt | hle
    · -- the last place is larger, and the significand has full precision
      have hfull : 2^52 ≤ roundHalfEven n (1*2^e) := by
        have hbounds := (quotient_bounds (n := n) Nat.one_pos).2
        rw [← he] at hbounds
        rcases hbounds with hz | hle
        · omega
        · exact hle.trans hquotient
      calc m*2^q ≤ 2^53*2^q := Nat.mul_le_mul_right _ h.1.le
        _ = 2^52*2^(q+1) := by rw [Nat.pow_succ 2 q]; ring
        _ ≤ 2^52*2^e := Nat.mul_le_mul_left _ (Nat.pow_le_pow_right (by decide) hlt)
        _ ≤ roundHalfEven n (1*2^e)*2^e := Nat.mul_le_mul_right _ hfull
    · -- the number is a multiple of the last place
      obtain ⟨d, rfl⟩ := Nat.exists_eq_add_of_le hle
      have hdiv : m*2^d ≤ n / (1*2^e) := by
        rw [Nat.one_mul, Nat.le_div_iff_mul_le hpos]
        calc m*2^d*2^e = m*2^(e+d) := by rw [Nat.pow_add]; ring
          _ ≤ n := hn
      calc m*2^(e+d) = m*2^d*2^e := by rw [Nat.pow_add]; ring
        _ ≤ roundHalfEven n (1*2^e)*2^e := Nat.mul_le_mul_right _ (hdiv.trans hquotient)
  rw [nearest_eq, ← he]
  split
  · next hcarry =>
    split
    · next hc =>
      rw [hcarry] at hsig
      refine hfinite hc (hsig.trans_eq ?_)
      rw [Nat.pow_succ 2 e]
      ring
    · rfl
  · split
    · next hc => exact hfinite hc hsig
    · rfl

theorem isSpan_iff : (Number.float x).IsSpan ↔ (zero false).le x := by
  cases x with
  | nan => exact Iff.rfl
  | infinite s => cases s <;> exact Iff.rfl
  | finite s m q h => exact Number.isSpan_units.trans (Number.compare_le _ _).symm

theorem isSpan_of_le (hx : (Number.float x).IsSpan) (h : x.le y) : (Number.float y).IsSpan :=
  isSpan_iff.mpr (le_trans (isSpan_iff.mp hx) h)

/-- A sum with a span is not less than the other term, a span too, although it is rounded. -/
theorem le_add (hx : (Number.float x).IsSpan) (hy : (Number.float y).IsSpan) : x.le (x.add y) := by
  obtain rfl | ⟨s, m, q, h, rfl, hs⟩ := span_cases hx
  · obtain rfl | ⟨t, k, r, hc, rfl, _⟩ := span_cases hy <;> rfl
  · obtain rfl | ⟨t, k, r, hc, rfl, _⟩ := span_cases hy
    · rfl
    · have huy := Number.isSpan_units.mp hy
      have hsum : (finite s m q h).add (finite t k r hc) =
          ofUnits (s && t) (units s m q + units t k r) := rfl
      generalize units t k r = v at huy hsum
      rw [hsum, ofUnits]
      rcases hs with rfl | rfl
      · have hux : units false m q = ((m <<< q : Nat) : Int) := rfl
        have hpos : 0 ≤ units false m q := Number.units_nonneg.mpr (.inl rfl)
        have hsign : (if units false m q + v = 0 then false && t
            else decide (units false m q + v < 0)) = false := by
          split
          · rfl
          · exact decide_eq_false (by omega)
        rw [hsign]
        exact le_nearest h (by omega)
      · -- a zero may have a sign
        have hux : units s 0 q = 0 := Number.units_eq_zero.mpr rfl
        have hspan : (Number.float (nearest (if units s 0 q + v = 0 then s && t
            else decide (units s 0 q + v < 0)) (units s 0 q + v).natAbs 1)).IsSpan := by
          refine isSpan_nearest Nat.one_pos ?_
          by_cases hv : v = 0
          · exact .inr (by omega)
          · refine .inl ?_
            rw [if_neg (by omega)]
            exact decide_eq_false (by omega)
        have hzero : (finite s 0 q h).le (zero false) := (Number.compare_le _ _).mpr hux.le
        exact le_trans hzero (isSpan_iff.mp hspan)

/-- A positive integer is not rounded below one. -/
theorem unit_le_of_ofInt {i : Int} (hi : 0 < i) {h : Canonical m q}
    (hx : ofInt i = .finite s m q h) : unit ≤ m <<< q := by
  obtain ⟨k, r, hc, hone, hk⟩ := ofInt_small (i := 1) (by decide)
  rw [Int.natAbs_one, Nat.one_mul] at hk
  have hle : (finite false k r hc).le (finite s m q h) := by
    rw [← hx, ofInt, decide_eq_false (by omega)]
    refine le_nearest hc ?_
    rw [hk]
    exact Nat.le_mul_of_pos_left unit (by omega)
  have hunits := (Number.compare_le _ _).mp hle
  have hu := natAbs_units s m q
  have hone : units false k r = ((k <<< r : Nat) : Int) := rfl
  rw [hone, hk] at hunits
  omega

/-- A quotient by a number that is not below one stays finite. -/
theorem isFinite_div {k r : Nat} (h : Canonical m q) (hc : Canonical k r) (hk : unit ≤ k <<< r) :
    ((finite s m q h).div (finite t k r hc)).isFinite := by
  have hpos := unit_pos
  have hne : k ≠ 0 := by
    rintro rfl
    rw [Nat.zero_shiftLeft] at hk
    omega
  have hself : (nearest s (m <<< q) 1).isFinite := by
    rw [nearest_canonical s h]
    rfl
  obtain ⟨e, he⟩ : ∃ e, e = 2044 := ⟨_, rfl⟩
  have hbound := (nearest_isFinite_iff s Nat.one_pos he).mp hself
  rw [Nat.one_mul] at hbound
  rw [div, if_neg hne]
  refine (nearest_isFinite_iff _ (by omega) he).mpr ?_
  calc (m <<< q)*unit ≤ (m <<< q)*(k <<< r) := Nat.mul_le_mul_left _ hk
    _ < ((2^54 - 1)*2^e)*(k <<< r) := Nat.mul_lt_mul_of_pos_right hbound (by omega)
    _ = (k <<< r)*((2^54 - 1)*2^e) := Nat.mul_comm _ _

theorem isFinite_div_ofInt {i : Int} (hi : 0 < i) (hf : (ofInt i).isFinite) (hx : x.isFinite) :
    (x.div (ofInt i)).isFinite := by
  cases hz : ofInt i with
  | nan => rw [hz] at hf; cases hf
  | infinite t => rw [hz] at hf; cases hf
  | finite t k r hc =>
    cases x with
    | nan => cases hx
    | infinite s => cases hx
    | finite s m q h => exact isFinite_div h hc (unit_le_of_ofInt hi hz)

end Courier.Binary64
