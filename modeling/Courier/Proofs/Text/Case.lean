import Mathlib
import Courier.Text.Case

namespace Courier.Text

variable {c l : Char}

theorem isLower_iff : c.isLower ↔ 97 ≤ c.toNat ∧ c.toNat ≤ 122 := by
  simp [Char.isLower, UInt32.le_iff_toNat_le, ← Char.toNat_val]

theorem isUpper_iff : c.isUpper ↔ 65 ≤ c.toNat ∧ c.toNat ≤ 90 := by
  simp [Char.isUpper, UInt32.le_iff_toNat_le, ← Char.toNat_val]

theorem toUpper_ascii (h : c.toNat < 128) : c.toUpper.toNat < 128 := by
  by_cases hl : c.isLower
  · have hn := isLower_iff.mp hl
    rw [Char.toUpper_eq_of_isLower hl, Char.toNat_ofNat]
    split <;> omega
  · rwa [Char.toUpper_eq_of_not_isLower hl]

theorem toLower_ascii (h : c.toNat < 128) : c.toLower.toNat < 128 := by
  by_cases hu : c.isUpper
  · have hn := isUpper_iff.mp hu
    rw [Char.toLower_eq_of_isUpper hu, Char.toNat_ofNat]
    split <;> omega
  · rwa [Char.toLower_eq_of_not_isUpper hu]

theorem toUpper_of_foreign (h : 128 ≤ c.toNat) : c.toUpper = c := by
  refine Char.toUpper_eq_of_not_isLower ?_
  rw [isLower_iff]
  omega

theorem toLower_of_foreign (h : 128 ≤ c.toNat) : c.toLower = c := by
  refine Char.toLower_eq_of_not_isUpper ?_
  rw [isUpper_iff]
  omega

theorem capitals_of_ascii (h : c.toNat < 128) : capitals c = [c.toUpper] := by
  unfold capitals
  split <;> first | rfl | omega

/-- The capitals of a character are in ASCII, or the character has none. -/
theorem capitals_cases (c : Char) : (∀ d ∈ capitals c, d.toNat < 128 ∧ d.toUpper = d) ∨
    capitals c = [c] := by
  by_cases hc : c.toNat < 128
  · refine .inl fun d hd => ?_
    rw [capitals_of_ascii hc, List.mem_singleton] at hd
    rw [hd]
    exact ⟨toUpper_ascii hc, Char.toUpper_toUpper_eq_toUpper c⟩
  · have hkeep : c.toUpper = c := toUpper_of_foreign (by omega)
    unfold capitals
    split
    case h_11 => exact .inr (congrArg (fun d => [d]) hkeep)
    all_goals exact .inl (by simp)

/-- Capitals are their own capitals. -/
theorem capitals_of_mem {d : Char} (h : d ∈ capitals c) : capitals d = [d] := by
  rcases capitals_cases c with hascii | hself
  · obtain ⟨hd, hupper⟩ := hascii d h
    rw [capitals_of_ascii hd, hupper]
  · rw [hself, List.mem_singleton] at h
    rw [h, hself]

theorem upper_upper (s : String) : upper (upper s) = upper s := by
  unfold upper
  rw [String.toList_ofList, List.flatMap_assoc]
  congr 1
  refine List.flatMap_congr fun c _ => ?_
  rw [List.flatMap_congr (g := fun d => [d]) fun d hd => capitals_of_mem hd, List.flatMap_singleton']

/-- The dotted capital i and the kelvin sign: cases of ASCII letters without ASCII capitals. -/
def isForeign (c : Char) : Bool := c.toNat = 0x130 || c.toNat = 0x212a

theorem capitals_of_isForeign (h : isForeign c) : capitals c = [c] := by
  have hn : c.toNat = 0x130 ∨ c.toNat = 0x212a := by simpa [isForeign] using h
  have hkeep : c.toUpper = c := toUpper_of_foreign (by omega)
  rcases hn with hn | hn
  · simp only [capitals, hn, hkeep]
  · simp only [capitals, hn, hkeep]

theorem fold_of_ascii (h : c.toNat < 128) : sameLetter.fold c = c.toLower := by
  unfold sameLetter.fold
  split <;> first | rfl | omega

/-- What is read as a capital letter has it for its capitals, unless it is foreign. -/
theorem capitals_of_sameLetter (hl : l.toNat < 128) (hu : l.toUpper = l) (h : sameLetter l c)
    (hc : isForeign c = false) : capitals c = [l] := by
  have hfold : l.toLower = sameLetter.fold c := by
    rw [← fold_of_ascii hl]
    simpa [sameLetter] using h
  have hcapital (d : Char) (hd : l.toLower = d) : l = d.toUpper := by
    rw [← hd, Char.toUpper_toLower_eq_toUpper, hu]
  by_cases hascii : c.toNat < 128
  · rw [fold_of_ascii hascii] at hfold
    rw [capitals_of_ascii hascii, hcapital _ hfold, Char.toUpper_toLower_eq_toUpper]
  · unfold sameLetter.fold at hfold
    split at hfold
    · next hn => simp [isForeign, hn] at hc
    · next hn =>
      rw [hcapital _ hfold]
      simp only [capitals, hn]
      rfl
    · next hn =>
      rw [hcapital _ hfold]
      simp only [capitals, hn]
      rfl
    · next hn => simp [isForeign, hn] at hc
    · have hlower := toLower_ascii hl
      rw [hfold, toLower_of_foreign (by omega)] at hlower
      exact absurd hlower hascii

end Courier.Text
