import Mathlib.Data.String.Basic

namespace Courier.Text

open String (ofList utf8Len)

/-- The look-up of the next separator: `m` has been read since the last one, `r` is left. -/
theorem splitOnAux_single (c : Char) (l m r : List Char) (acc : List String) :
    String.splitOnAux (ofList (l ++ m ++ r)) (ofList [c]) ⟨utf8Len l⟩
        ⟨utf8Len l + utf8Len m⟩ 0 acc =
      acc.reverse ++ (List.splitOnPPrepend (· == c) r m.reverse).map ofList := by
  have hfirst : String.Pos.Raw.get (ofList [c]) 0 = c := String.get_of_valid [] [c]
  have hnext : String.Pos.Raw.next (ofList [c]) 0 = ⟨0 + c.utf8Size⟩ :=
    String.next_of_valid [] c []
  have hend : String.Pos.Raw.atEnd (ofList [c]) ⟨0 + c.utf8Size⟩ = true :=
    (String.atEnd_of_valid [c] []).mpr rfl
  induction r generalizing l m acc with
  | nil =>
    have hlast := String.extract_of_valid l m []
    have hdone := (String.atEnd_of_valid (l ++ m) []).mpr rfl
    rw [String.utf8Len_append] at hdone
    rw [String.splitOnAux.eq_1, if_pos hdone, hlast]
    simp
  | cons d r ih =>
    have hget := String.get_of_valid (l ++ m) (d :: r)
    have hmove := String.next_of_valid (l ++ m) d r
    have hmore := mt (String.atEnd_of_valid (l ++ m) (d :: r)).mp (List.cons_ne_nil d r)
    have hpart := String.extract_of_valid l m (d :: r)
    rw [String.utf8Len_append] at hget hmove hmore
    rw [String.splitOnAux.eq_1, if_neg hmore, hget, hfirst, List.headD_cons,
      List.splitOnPPrepend_cons_eq_if]
    by_cases hd : (d == c) = true
    · have hback : (⟨utf8Len l + utf8Len m + d.utf8Size⟩ : String.Pos.Raw).unoffsetBy
          ⟨0 + c.utf8Size⟩ = ⟨utf8Len l + utf8Len m⟩ := by
        cases eq_of_beq hd
        simp [String.Pos.Raw.unoffsetBy]
      have hrest := ih (l ++ m ++ [d]) [] (ofList m :: acc)
      rw [if_pos hd, if_pos hd, hmove, hnext]
      dsimp only
      rw [if_pos hend, hback, hpart]
      simpa [Nat.add_assoc, -String.ofList_append] using hrest
    · have hback : (⟨utf8Len l + utf8Len m⟩ : String.Pos.Raw).unoffsetBy 0 =
          ⟨utf8Len l + utf8Len m⟩ := by simp
      have hrest := ih l (m ++ [d]) acc
      rw [if_neg hd, if_neg hd, hback, hmove]
      simpa [Nat.add_assoc, -String.ofList_append] using hrest

/-- The parts of a text are the parts of its list of characters. -/
theorem splitOn_singleton (s : String) (c : Char) :
    s.splitOn (String.singleton c) = (s.toList.splitOn c).map ofList := by
  have hne : (String.singleton c == "") = false := by simp
  have h := splitOnAux_single c [] [] s.toList []
  unfold String.splitOn List.splitOn
  rw [hne, String.singleton_eq_ofList]
  simpa [-String.ofList_cons, -String.ofList_nil] using h

section Parts

variable {c x : Char} {cs part : List Char}

/-- A character that is no separator stands before the first part of the rest. -/
theorem splitOn_cons (c x : Char) (cs : List Char) :
    ∃ first rest, cs.splitOn c = first :: rest ∧
      (x :: cs).splitOn c = if x = c then [] :: first :: rest else (x :: first) :: rest := by
  obtain ⟨first, rest, h⟩ := List.exists_cons_of_ne_nil (List.splitOn_ne_nil c cs)
  refine ⟨first, rest, h, ?_⟩
  rw [List.splitOn_cons_eq_if_modifyHead, h]
  simp

theorem not_mem_of_part (h : part ∈ cs.splitOn c) : c ∉ part := by
  induction cs generalizing part with
  | nil =>
    rw [List.splitOn_nil, List.mem_singleton] at h
    simp [h]
  | cons x cs ih =>
    obtain ⟨first, rest, hcs, hxcs⟩ := splitOn_cons c x cs
    rw [hcs] at ih
    rw [hxcs] at h
    split at h
    · rcases List.mem_cons.mp h with rfl | h
      · exact List.not_mem_nil
      · exact ih h
    · next hx =>
      rcases List.mem_cons.mp h with rfl | h
      · rw [List.mem_cons, not_or]
        exact ⟨Ne.symm hx, ih List.mem_cons_self⟩
      · exact ih (List.mem_cons_of_mem first h)

/-- Splitting loses separators only. -/
theorem mem_part_iff (hx : x ≠ c) : (∃ part ∈ cs.splitOn c, x ∈ part) ↔ x ∈ cs := by
  induction cs with
  | nil => simp
  | cons y cs ih =>
    obtain ⟨first, rest, hcs, hycs⟩ := splitOn_cons c y cs
    rw [hcs] at ih
    rw [hycs, List.mem_cons, ← ih]
    by_cases hy : y = c
    · simp [hy, hx]
    · simp [hy, or_assoc]

end Parts

end Courier.Text
