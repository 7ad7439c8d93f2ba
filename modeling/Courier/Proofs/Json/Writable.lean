import Mathlib.Data.List.TakeWhile
import Mathlib.Data.Nat.Digits.Lemmas
import Courier.Json.Load
import Courier.Proofs.Text.Digits

namespace Courier.Json

open Value

variable {fuel : Nat} {cs rest : List Char} {n : Number} {v : Value} {vs : List Value} {ms : Members}

theorem isDigit_digits (cs : List Char) : ∀ c ∈ (digits cs).1, c.isDigit :=
  fun _ hc => List.mem_takeWhile_imp hc

theorem isWritable_digitsValue {ds : List Char} (hd : ∀ c ∈ ds, c.isDigit) (hne : ds ≠ [])
    (hl : ds.length ≤ Number.maxDigits) (negative : Bool) :
    (Number.int (if negative then -(digitsValue ds : Int) else digitsValue ds)).isWritable := by
  have hlt : digitsValue ds < 10^ds.length := by
    rw [digitsValue, Text.ofDigits_map]
    simpa using Text.ofDigitChars_lt hd 0
  have habs : (if negative then -(digitsValue ds : Int) else digitsValue ds).natAbs =
      digitsValue ds := by
    cases negative <;> simp
  rw [Number.isWritable, habs]
  exact decide_eq_true ((Nat.toDigits_length 10 _ _ (List.length_pos_iff.mpr hne) hlt).trans hl)

theorem number_isWritable (h : number cs = .ok (n, rest)) : n.isWritable := by
  unfold number at h
  split at h
  next negative unsigned _ =>
  split at h
  next whole after hw =>
  have hdigit : ∀ c ∈ whole, c.isDigit := by
    split at hw
    · cases hw
      simp [Char.isDigit]
    · have hall := isDigit_digits unsigned
      rw [hw] at hall
      exact hall
  split at h
  · cases h
  next hne =>
  split at h
  split at h
  · cases h
    rfl
  · split at h
    · split at h
      · cases h
      next hl =>
        cases h
        exact isWritable_digitsValue hdigit (by simpa using hne) (Nat.le_of_not_lt hl) negative
    · cases h
      rfl

theorem scalar_isWritable (h : scalar cs = .ok (v, rest)) : v.isWritable := by
  unfold scalar at h
  split at h
  case h_7 =>
    obtain ⟨⟨n, rest'⟩, hn, h⟩ := bind_eq_ok h
    cases h
    exact number_isWritable hn
  all_goals
    cases h
    rfl

theorem areWritable_iff : areWritable vs ↔ ∀ v ∈ vs, v.isWritable := by
  induction vs with
  | nil => simp [areWritable]
  | cons v vs ih => simp [areWritable, ih]

theorem haveWritable_iff : haveWritable ms ↔ ∀ m ∈ ms, m.1.isWritable ∧ m.2.isWritable := by
  induction ms with
  | nil => simp [haveWritable]
  | cons m ms ih => simp [haveWritable, ih]

theorem haveWritable_insert (hms : haveWritable ms) (key : String) (hv : v.isWritable) :
    haveWritable (insert ms (.text key) v) := by
  rw [haveWritable_iff] at hms ⊢
  unfold insert insertBy
  intro m hm
  split at hm
  · obtain ⟨m', hm', rfl⟩ := List.mem_map.mp hm
    split
    · exact ⟨(hms m' hm').1, hv⟩
    · exact hms m' hm'
  · rcases List.mem_append.mp hm with hm | hm
    · exact hms m hm
    · rw [List.mem_singleton.mp hm]
      exact ⟨rfl, hv⟩

/-- By induction on the depth that is left: a value, and what comes after items or members that can
be written. -/
theorem read_isWritable (fuel : Nat) :
    (∀ cs v rest, value fuel cs = .ok (v, rest) → v.isWritable) ∧
      (∀ vs cs v rest, areWritable vs → items fuel vs cs = .ok (v, rest) → v.isWritable) ∧
      ∀ ms cs v rest, haveWritable ms → members fuel ms cs = .ok (v, rest) → v.isWritable := by
  induction fuel with
  | zero =>
    refine ⟨?_, ?_, ?_⟩
    · intro cs v rest h
      cases h
    · intro vs cs v rest _ h
      cases h
    · intro ms cs v rest _ h
      cases h
  | succ fuel ih =>
    obtain ⟨hvalue, hitems, hmembers⟩ := ih
    refine ⟨?_, ?_, ?_⟩
    · intro cs v rest h
      unfold value at h
      split at h
      · obtain ⟨⟨s, after⟩, _, h⟩ := bind_eq_ok h
        cases h
        rfl
      · split at h
        · cases h
          rfl
        · exact hmembers _ _ _ _ rfl h
      · split at h
        · cases h
          rfl
        · exact hitems _ _ _ _ rfl h
      · exact scalar_isWritable h
    · intro vs cs v rest hvs h
      unfold items at h
      obtain ⟨⟨w, after⟩, hw, h⟩ := bind_eq_ok h
      have hall : areWritable (w :: vs) := by
        rw [areWritable, hvalue _ _ _ hw, hvs]
        rfl
      dsimp only at h
      split at h
      · cases h
        rw [areWritable_iff] at hall
        rw [isWritable, areWritable_iff]
        intro u hu
        exact hall u (List.mem_reverse.mp hu)
      · exact hitems _ _ _ _ hall h
      · cases h
    · intro ms cs v rest hms h
      unfold members at h
      split at h
      · obtain ⟨⟨key, after⟩, _, h⟩ := bind_eq_ok h
        dsimp only at h
        split at h
        · obtain ⟨⟨w, after'⟩, hw, h⟩ := bind_eq_ok h
          have hall := haveWritable_insert hms key (hvalue _ _ _ hw)
          dsimp only at h
          split at h
          · cases h
            exact hall
          · exact hmembers _ _ _ _ hall h
          · cases h
        · cases h
      · cases h

/-- Whatever is read from a file can be written. -/
theorem load_isWritable {what path text : String} (h : load what path text = .ok v) :
    v.isWritable := by
  unfold load read document at h
  split at h
  · next hread =>
    cases h
    split at hread
    · next w hw =>
      cases hread
      split at hw
      · cases hw
      · obtain ⟨⟨u, rest⟩, hu, hw⟩ := bind_eq_ok hw
        dsimp only at hw
        split at hw
        · cases hw
          exact (read_isWritable _).1 _ _ _ hu
        · cases hw
    · cases hread
  · split at h <;> cases h

theorem isWritable_lookup {key : Key} (hms : haveWritable ms) (h : lookup ms key = some v) :
    v.isWritable := by
  obtain ⟨m, hm, rfl⟩ := mem_of_lookup h
  exact (haveWritable_iff.mp hms m hm).2

end Courier.Json
