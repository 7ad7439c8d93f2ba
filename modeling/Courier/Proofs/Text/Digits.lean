import Mathlib.Tactic.Ring
import Courier.Text.Digit

namespace Courier.Text

variable {c : Char}

theorem toNat_of_isDigit (h : c.isDigit) : 48 ≤ c.toNat ∧ c.toNat ≤ 57 := by
  simp only [Char.isDigit, Bool.and_eq_true, decide_eq_true_eq] at h
  exact ⟨UInt32.le_iff_toNat_le.mp h.1, UInt32.le_iff_toNat_le.mp h.2⟩

theorem ofDigits_map (cs : List Char) :
    ofDigits (cs.map (fun c => c.toNat - 48)) = Nat.ofDigitChars 10 cs 0 := by
  rw [ofDigits, List.foldl_map, Nat.ofDigitChars_eq_foldl]
  rfl

theorem ofDigitChars_lt {digits : List Char} (h : ∀ c ∈ digits, c.isDigit) (n : Nat) :
    Nat.ofDigitChars 10 digits n < (n+1) * 10^digits.length := by
  induction digits generalizing n with
  | nil => simp
  | cons c digits ih =>
    obtain ⟨hc, hdigits⟩ := List.forall_mem_cons.mp h
    have hn := toNat_of_isDigit hc
    have hdigit : c.toNat - '0'.toNat ≤ 9 := by
      have hz : '0'.toNat = 48 := rfl
      omega
    calc Nat.ofDigitChars 10 (c :: digits) n
        = Nat.ofDigitChars 10 digits (10*n + (c.toNat - '0'.toNat)) := Nat.ofDigitChars_cons
      _ < (10*n + (c.toNat - '0'.toNat) + 1) * 10^digits.length := ih hdigits _
      _ ≤ ((n+1)*10) * 10^digits.length := Nat.mul_le_mul_right _ (by omega)
      _ = (n+1) * 10^(c :: digits).length := by rw [List.length_cons, pow_succ']; ring

end Courier.Text
