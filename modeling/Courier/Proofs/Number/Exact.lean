import Courier.Pose.Entry
import Courier.Proofs.Number.Range

namespace Courier

theorem roundHalfEven_mul (n : Nat) {d : Nat} (hd : 0 < d) : roundHalfEven (n*d) d = n := by
  unfold roundHalfEven
  rw [Nat.mul_div_cancel n hd, Nat.mul_mod_left]
  dsimp only
  rw [if_neg (by omega)]

namespace Binary64

/-- A short significand moved up by a power of two is not rounded. -/
theorem nearest_pow (s : Bool) {n e : Nat} (hn : n < 2^53) (he : e ≤ 1993) :
    ∃ m q h, nearest s (n*2^(e+52)) 1 = .finite s m q h ∧ m <<< q = n*2^(e+52) := by
  by_cases h0 : n = 0
  · subst h0
    refine ⟨0, 0, by decide, ?_, by simp⟩
    simp [nearest, roundHalfEven, Canonical]
  · let l := Nat.log2 n
    have hl : 2^l ≤ n ∧ n < 2^(l+1) := (Nat.log2_eq_iff h0).mp rfl
    have hl52 : l ≤ 52 := by
      have hlt : l < 53 := (Nat.log2_lt h0).mpr hn
      omega
    have hlog : Nat.log2 (n*2^(e+52)/1) = l+e+52 := by
      rw [Nat.div_one]
      refine (Nat.log2_eq_iff (Nat.mul_ne_zero h0 (Nat.two_pow_pos _).ne')).mpr ⟨?_, ?_⟩
      · calc 2^(l+e+52) = 2^l*2^(e+52) := by ring
          _ ≤ n*2^(e+52) := Nat.mul_le_mul_right _ hl.1
      · calc n*2^(e+52) < 2^(l+1)*2^(e+52) := Nat.mul_lt_mul_of_pos_right hl.2 (Nat.two_pow_pos _)
          _ = 2^(l+e+52+1) := by ring
    have hsplit : n*2^(e+52) = n*2^(52-l)*2^(l+e) := by
      rw [Nat.mul_assoc, ← Nat.pow_add]
      congr 2
      omega
    have hround : roundHalfEven (n*2^(e+52)) (1 <<< (l+e)) = n*2^(52-l) := by
      rw [Nat.shiftLeft_eq, Nat.one_mul, hsplit]
      exact roundHalfEven_mul _ (Nat.two_pow_pos _)
    have hlt : n*2^(52-l) < 2^53 := by
      have h := Nat.mul_lt_mul_of_pos_right hl.2 (Nat.two_pow_pos (52-l))
      rwa [← Nat.pow_add, show l+1+(52-l) = 53 by omega] at h
    have hge : 2^52 ≤ n*2^(52-l) := by
      have h := Nat.mul_le_mul_right (2^(52-l)) hl.1
      rwa [← Nat.pow_add, show l+(52-l) = 52 by omega] at h
    have hc : Canonical (n*2^(52-l)) (l+e) := ⟨hlt, .inr hge, by omega⟩
    refine ⟨n*2^(52-l), l+e, hc, ?_, ?_⟩
    · have hq : l+e+52-52 = l+e := by omega
      have hne : n*2^(52-l) ≠ 1 <<< 53 := Nat.ne_of_lt hlt
      unfold nearest
      simp only [hlog, hq, hround, hne, if_false, dif_pos hc]
    · rw [Nat.shiftLeft_eq, hsplit]

theorem ofInt_small {i : Int} (hi : i.natAbs < 2^53) :
    ∃ m q h, ofInt i = .finite (decide (i < 0)) m q h ∧ m <<< q = i.natAbs*unit := by
  rw [ofInt, unit_eq (k := 1022+52) rfl]
  exact nearest_pow _ hi (by omega)

theorem round?_finite {s : Bool} {m q n : Nat} (h : Canonical m q) (hm : m <<< q = n*unit) :
    (finite s m q h).round? = some (if s then -(n : Int) else n) := by
  rw [round?, hm, roundHalfEven_mul n unit_pos]

theorem round?_ofInt {i : Int} (hi : i.natAbs < 2^53) : (ofInt i).round? = some i := by
  obtain ⟨m, q, h, hx, hm⟩ := ofInt_small hi
  have hs : (if decide (i < 0) then -(i.natAbs : Int) else i.natAbs) = i := by
    split
    · next hneg => have := of_decide_eq_true hneg; omega
    · next hneg => have := mt decide_eq_true hneg; omega
  rw [hx, round?_finite h hm, hs]

/-- A multiple of the unit with the sign of an integer is that integer. -/
theorem toInt?_signed {i : Int} {m q : Nat} (h : Canonical m q) (hm : m <<< q = i.natAbs*unit) :
    (finite (decide (i < 0)) m q h).toInt? = some i := by
  have hu : units (decide (i < 0)) m q = i*(unit : Int) := by
    unfold units
    rw [hm]
    split
    · next hneg =>
      have hlt := of_decide_eq_true hneg
      have habs : (i.natAbs : Int) = -i := by omega
      rw [Int.natCast_mul, habs, Int.neg_mul, Int.neg_neg]
    · next hneg =>
      have hge := mt decide_eq_true hneg
      have habs : (i.natAbs : Int) = i := by omega
      rw [Int.natCast_mul, habs]
  have hpos : (unit : Int) ≠ 0 := by
    have hlt := unit_pos
    omega
  rw [toInt?, hu, Int.mul_emod_left, Int.mul_ediv_cancel _ hpos, if_pos rfl]

theorem toInt?_ofInt {i : Int} (hi : i.natAbs < 2^53) : (ofInt i).toInt? = some i := by
  obtain ⟨m, q, h, hx, hm⟩ := ofInt_small hi
  rw [hx]
  exact toInt?_signed h hm

theorem toInt?_of_dvd {s : Bool} {m q : Nat} (h : Canonical m q) (hd : unit ∣ m <<< q) :
    ∃ i, (finite s m q h).toInt? = some i := by
  have hu : units s m q % (unit : Int) = 0 := by
    refine Int.emod_eq_zero_of_dvd ?_
    have hc : (unit : Int) ∣ (m <<< q : Nat) := Int.natCast_dvd_natCast.mpr hd
    unfold units
    split
    · exact Int.dvd_neg.mpr hc
    · exact hc
  refine ⟨units s m q / unit, ?_⟩
  rw [toInt?, if_pos hu]

/-- Rounding leaves a whole number whole. -/
theorem isWhole_ofInt {i : Int} (hf : (ofInt i).isFinite) : ∃ j, (ofInt i).toInt? = some j := by
  by_cases hi : i.natAbs < 2^53
  · exact ⟨i, toInt?_ofInt hi⟩
  · obtain ⟨k, hk⟩ : ∃ k, k = 1074 := ⟨_, rfl⟩
    have hq : k ≤ Nat.log2 (i.natAbs*2^k/1) - 52 := by
      have hle : 2^(52+k) ≤ i.natAbs*2^k := by
        rw [Nat.pow_add]
        exact Nat.mul_le_mul_right _ (by omega)
      have hne : i.natAbs*2^k ≠ 0 := by
        have hpos := Nat.two_pow_pos (52+k)
        omega
      have hlog := (Nat.le_log2 hne).mpr hle
      rw [Nat.div_one]
      omega
    -- a significand moved up by at least one unit
    have hdvd (m q : Nat) (h : k ≤ q) : unit ∣ m <<< q := by
      rw [unit_eq hk, Nat.shiftLeft_eq]
      exact Nat.dvd_mul_left_of_dvd (Nat.pow_dvd_pow 2 h) m
    rw [ofInt, unit_eq hk] at hf ⊢
    unfold nearest at hf ⊢
    generalize Nat.log2 (i.natAbs*2^k/1) - 52 = q at hq hf ⊢
    dsimp only at hf ⊢
    split at hf
    · next hm =>
      split at hf
      · next hc =>
        rw [if_pos hm, dif_pos hc]
        exact toInt?_of_dvd hc (hdvd _ _ (by omega))
      · cases hf
    · next hm =>
      split at hf
      · next hc =>
        rw [if_neg hm, dif_pos hc]
        exact toInt?_of_dvd hc (hdvd _ _ hq)
      · cases hf

/-- Integers that are not larger than binary64 numbers get stay finite. -/
theorem ofInt_isFinite {i : Int} {k : Nat} (hk : k ≤ 1023) (hi : i.natAbs < 2^k) :
    (ofInt i).isFinite :=
  ofInt_isFinite_iff.mpr (Nat.lt_trans hi (pow_lt_overflow hk))

end Binary64

namespace Number

theorem toBinary64_of_finite {i : Int} {x : Binary64} (hx : Binary64.ofInt i = x)
    (hf : x.isFinite) : toBinary64 (.int i) = .ok x := by
  subst hx
  simp only [toBinary64, hf, if_true]

theorem toBinary64_of_infinite {i : Int} (h : (Binary64.ofInt i).isFinite = false) :
    toBinary64 (.int i) = .error .outOfRange := by
  unfold toBinary64
  dsimp only
  rw [h]
  rfl

theorem toBinary64_small {i : Int} (hi : i.natAbs < 2^53) :
    ∃ x, toBinary64 (.int i) = .ok x ∧ round (.float x) = .ok i := by
  obtain ⟨m, q, h, hx, _⟩ := Binary64.ofInt_small hi
  have hr := Binary64.round?_ofInt hi
  rw [hx] at hr
  refine ⟨_, toBinary64_of_finite hx rfl, ?_⟩
  simp only [round, hr]

end Number

theorem Number.toBinary64_isOk {i : Int} {k : Nat} (hk : k ≤ 1023) (hi : i.natAbs < 2^k) :
    ∃ x, Number.toBinary64 (.int i) = .ok x :=
  ⟨_, toBinary64_of_finite rfl (Binary64.ofInt_isFinite hk hi)⟩

def PoseEntry.ofStance (s : Stance) : PoseEntry :=
  ⟨.int s.cell.1, .int s.cell.2, .int s.heading.toNat, s.cargo, .int 1, .bool false⟩

theorem PoseEntry.stance_ofStance {s : Stance} (hx : s.cell.1.natAbs < 2^53)
    (hy : s.cell.2.natAbs < 2^53) : (ofStance s).stance = .ok s := by
  obtain ⟨x, hx, hrx⟩ := Number.toBinary64_small hx
  obtain ⟨y, hy, hry⟩ := Number.toBinary64_small hy
  have hc : (ofStance s).cell = .ok s.cell := rfl
  have hh : (ofStance s).heading = .ok s.heading := by
    cases hs : s.heading <;> simp only [heading, ofStance, hs] <;> rfl
  unfold stance
  rw [hc, ok_bind, lift_ok hx, ok_bind, lift_ok hy, ok_bind, hh, ok_bind, lift_ok hrx, ok_bind,
    lift_ok hry, ok_bind]
  rfl

theorem World.natAbs_lt_of_canEnter {w : World} {c : Cell} (h : w.canEnter c) :
    c.1.natAbs < w.width ∧ c.2.natAbs < w.height := by
  have hb := inBounds_of_canEnter h
  simp only [inBounds, Bool.and_eq_true, decide_eq_true_eq] at hb
  omega

/-- In a world that is not too large every stance that the agent can take is that of a pose. -/
theorem PoseEntry.stance_of_canEnter {w : World} {s : Stance} (hw : w.width ≤ 2^53)
    (hh : w.height ≤ 2^53) (hs : w.canEnter s.cell) : (ofStance s).stance = .ok s := by
  obtain ⟨hx, hy⟩ := World.natAbs_lt_of_canEnter hs
  exact stance_ofStance (Nat.lt_of_lt_of_le hx hw) (Nat.lt_of_lt_of_le hy hh)

end Courier
