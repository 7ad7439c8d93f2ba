import Courier.Proofs.Text.Lines

namespace Courier

open Text

namespace Binary64

theorem layout_visible {digits : List Char} (h : AreVisible digits) (point : Int) :
    AreVisible (layout digits point) ∧ layout digits point ≠ [] := by
  have hzeros (n : Nat) : AreVisible (List.replicate n '0') := areVisible_replicate n (by decide)
  have hrest (n : Nat) : AreVisible (digits.drop n) := h.sublist (List.drop_sublist n digits)
  have hfirst (n : Nat) : AreVisible (digits.take n) := h.sublist (List.take_sublist n digits)
  unfold layout
  split
  · split
    · exact ⟨.append (.append (by decide) (hzeros _)) h, by simp⟩
    · split
      · exact ⟨.append (.append h (hzeros _)) (by decide), by simp⟩
      · exact ⟨.append (hfirst _) (.cons (by decide) (hrest _)), by simp⟩
  · dsimp only
    have hpoint : AreVisible (if digits.length = 1 then [] else '.' :: digits.drop 1) := by
      split
      · decide
      · exact .cons (by decide) (hrest 1)
    have hsign : AreVisible ['e', if point - 1 < 0 then '-' else '+'] := by
      split <;> decide
    have hplaces (places : List Char) (hp : AreVisible places) :
        AreVisible (if places.length < 2 then '0' :: places else places) := by
      split
      · exact .cons (by decide) hp
      · exact hp
    exact ⟨.append (.append (.append (hfirst 1) hpoint) hsign) (hplaces _ (areVisible_toDigits _)),
      by simp⟩

theorem text_visible (x : Binary64) : AreVisible x.text.toList ∧ x.text ≠ "" := by
  cases x with
  | nan => decide
  | infinite s => cases s <;> decide
  | finite s m q h =>
    have hsign : AreVisible (if s then ['-'] else []) := by
      cases s <;> decide
    have htext (cs : List Char) (hc : AreVisible cs) (hn : cs ≠ []) :
        AreVisible (String.ofList ((if s then ['-'] else []) ++ cs)).toList ∧
          String.ofList ((if s then ['-'] else []) ++ cs) ≠ "" := by
      rw [String.toList_ofList]
      refine ⟨hsign.append hc, ?_⟩
      intro he
      have he' := congrArg String.toList he
      rw [String.toList_ofList] at he'
      simp [hn] at he'
    unfold text
    dsimp only
    split
    · exact htext _ (by decide) (by simp)
    · have hdigits : AreVisible (dropZeros (Nat.toDigits 10 (shortest m q).1)) := by
        refine (areVisible_toDigits (shortest m q).1).sublist ?_
        unfold dropZeros
        rw [← List.reverse_sublist, List.reverse_reverse]
        exact List.dropWhile_sublist _
      obtain ⟨hv, hn⟩ := layout_visible hdigits
        ((Nat.toDigits 10 (shortest m q).1).length + (shortest m q).2)
      exact htext _ hv hn

end Binary64

theorem Number.toString_visible (i : Int) :
    AreVisible (toString i).toList ∧ toString i ≠ "" := by
  have hnat (n : Nat) : (toString n).toList = Nat.toDigits 10 n := by simp
  have hne (n : Nat) : toString n ≠ "" := by
    intro he
    have hd := congrArg String.toList he
    rw [hnat] at hd
    exact Nat.toDigits_ne_nil hd
  cases i with
  | ofNat n =>
    have he : toString (Int.ofNat n) = toString n := rfl
    rw [he, hnat]
    exact ⟨areVisible_toDigits n, hne n⟩
  | negSucc n =>
    have he : toString (Int.negSucc n) = "-" ++ toString (n+1) := rfl
    rw [he, String.toList_append, hnat]
    refine ⟨.append (by decide) (areVisible_toDigits _), ?_⟩
    intro hs
    have hd := congrArg String.toList hs
    simp at hd

theorem Number.text_visible (n : Number) : AreVisible n.text.toList ∧ n.text ≠ "" := by
  cases n with
  | int i => exact toString_visible i
  | float x => exact x.text_visible

end Courier
