import Courier.Proofs.Instruction.Spelling
import Courier.Text.Lines

namespace Courier.Text

section Trim

variable {p : Char → Bool} {cs : List Char}

theorem mem_of_mem_trim {c : Char} (h : c ∈ trim p cs) : c ∈ cs := by
  have hr := List.mem_reverse.mp h
  have hd := (List.dropWhile_sublist p).mem hr
  exact (List.dropWhile_sublist p).mem (List.mem_reverse.mp hd)

theorem trim_getLast? : ∀ c ∈ (trim p cs).getLast?, p c = false := by
  intro c hc
  unfold trim at hc
  rw [List.getLast?_reverse] at hc
  have h := List.head?_dropWhile_not p (cs.dropWhile p).reverse
  rw [hc] at h
  simpa using h

theorem trim_head? : ∀ c ∈ (trim p cs).head?, p c = false := by
  intro c hc
  have hpre : trim p cs <+: cs.dropWhile p := by
    unfold trim
    rw [← List.reverse_suffix, List.reverse_reverse]
    exact List.dropWhile_suffix p
  obtain ⟨rest, hr⟩ := hpre
  have h := List.head?_dropWhile_not p cs
  have hhead : (cs.dropWhile p).head? = some c := by
    rw [← hr, List.head?_append, hc]
    rfl
  rw [hhead] at h
  simpa using h

theorem trim_trim : trim p (trim p cs) = trim p cs :=
  trim_eq_self trim_head? trim_getLast?

end Trim

theorem toList_eq_of_stripped {s : String} (h : strip s = s) : trim isBlank s.toList = s.toList := by
  have hs := congrArg String.toList h
  rwa [strip, String.toList_ofList] at hs

theorem strip_eq_self {s : String} (hf : ∀ c ∈ s.toList.head?, isBlank c = false)
    (hl : ∀ c ∈ s.toList.getLast?, isBlank c = false) : strip s = s := by
  rw [strip, trim_eq_self hf hl, String.ofList_toList]

theorem strip_strip (s : String) : strip (strip s) = strip s := by
  unfold strip
  rw [String.toList_ofList, trim_trim]

theorem toList_ne_nil {s : String} (h : s ≠ "") : s.toList ≠ [] :=
  fun he => h (String.toList_eq_nil_iff.mp he)

/-- A text that reads as one line, itself. -/
structure IsPlainLine (l : String) : Prop where
  filled : l ≠ ""
  stripped : strip l = l
  whole : ∀ c ∈ l.toList, isLineEnd c = false

/-- The lines among some that are not blank, without the blanks at their ends. -/
def filled (ls : List (List Char)) : List String :=
  (ls.map (trim isBlank)).filterMap (fun cs => if cs.isEmpty then none else some (String.ofList cs))

theorem filledLines_eq (s : String) : filledLines s = filled (linesAfter [] s.toList) := rfl

theorem filled_append (ks ls : List (List Char)) : filled (ks ++ ls) = filled ks ++ filled ls := by
  simp [filled]

theorem filled_cons (cs : List Char) (ls : List (List Char)) :
    filled (cs :: ls) = filled [cs] ++ filled ls := filled_append [cs] ls

/-- No line of a text has a boundary in it. -/
theorem linesAfter_whole {before cs : List Char} (hb : ∀ c ∈ before, isLineEnd c = false) :
    ∀ l ∈ linesAfter before cs, ∀ c ∈ l, isLineEnd c = false := by
  fun_induction linesAfter before cs with
  | case1 before he => simp
  | case2 before he => simpa using hb
  | case3 before cs ih =>
    intro l hl
    rcases List.mem_cons.mp hl with rfl | hl
    · simpa using hb
    · exact ih (by simp) l hl
  | case4 before c cs _ hc ih =>
    intro l hl
    rcases List.mem_cons.mp hl with rfl | hl
    · simpa using hb
    · exact ih (by simp) l hl
  | case5 before c cs _ hc ih =>
    refine ih ?_
    intro d hd
    rcases List.mem_cons.mp hd with rfl | hd
    · simpa using hc
    · exact hb d hd

theorem linesAfter_feed (before cs : List Char) :
    linesAfter before ('\n' :: cs) = before.reverse :: linesAfter [] cs := by
  simp [linesAfter, isLineEnd]

theorem linesAfter_end {c : Char} {before cs : List Char} (hc : isLineEnd c = true)
    (hn : c = '\r' → cs.head? ≠ some '\n') :
    linesAfter before (c :: cs) = before.reverse :: linesAfter [] cs := by
  rw [linesAfter.eq_def]
  split
  · next h => cases h
  · next h =>
    cases h
    exact absurd rfl (hn rfl)
  · next h =>
    cases h
    rw [if_pos hc]

theorem linesAfter_inside {c : Char} {before cs : List Char} (hc : isLineEnd c = false) :
    linesAfter before (c :: cs) = linesAfter (c :: before) cs := by
  rw [linesAfter.eq_def]
  split
  · next h => cases h
  · next h =>
    cases h
    cases hc
  · next h =>
    cases h
    rw [if_neg (by simp [hc])]

/-- Newlines of all kinds part the same lines. -/
theorem linesAfter_unifyNewlines (before cs : List Char) :
    linesAfter before (unifyNewlines cs) = linesAfter before cs := by
  fun_induction unifyNewlines cs generalizing before with
  | case1 => rfl
  | case2 cs ih => rw [linesAfter_feed, ih, linesAfter]
  | case3 cs hn ih =>
    have hfirst : cs.head? ≠ some '\n' := by
      intro hh
      obtain ⟨ds, rfl⟩ := List.head?_eq_some_iff.mp hh
      exact hn ds rfl
    rw [linesAfter_feed, ih, linesAfter_end (by decide) fun _ => hfirst]
  | case4 c cs _ hr ih =>
    have hfirst {ds : List Char} : c = '\r' → ds.head? ≠ some '\n' := fun hc => absurd hc hr
    cases hc : isLineEnd c with
    | true => rw [linesAfter_end hc hfirst, linesAfter_end hc hfirst, ih]
    | false => rw [linesAfter_inside hc, linesAfter_inside hc, ih]

/-- A text reads from a file as it is. -/
theorem filledLines_ofFile (s : String) : filledLines (ofFile s) = filledLines s := by
  rw [filledLines_eq, filledLines_eq, ofFile, String.toList_ofList, linesAfter_unifyNewlines]

/-- A boundary at the end of a text makes no filled line. -/
theorem filled_linesAfter (before cs rest : List Char) :
    filled (linesAfter before (cs ++ '\n' :: rest)) =
      filled (linesAfter before cs) ++ filled (linesAfter [] rest) := by
  fun_induction linesAfter before cs with
  | case1 before he =>
    rw [List.nil_append, linesAfter_feed, List.isEmpty_iff.mp he, filled_cons]
    rfl
  | case2 before he => rw [List.nil_append, linesAfter_feed, filled_cons]
  | case3 before cs ih =>
    rw [List.cons_append, List.cons_append, linesAfter, filled_cons, ih, ← List.append_assoc,
      ← filled_cons]
  | case4 before c cs hn hc ih =>
    by_cases hr : c = '\r' ∧ cs = []
    · -- the carriage return of the text and the line feed after it are one boundary
      obtain ⟨rfl, rfl⟩ := hr
      have hcrlf : linesAfter before ('\r' :: '\n' :: rest) =
          before.reverse :: linesAfter [] rest := rfl
      have hlast : linesAfter [] [] = [] := rfl
      rw [List.cons_append, List.nil_append, hcrlf, filled_cons, hlast]
    · have hfirst : c = '\r' → (cs ++ '\n' :: rest).head? ≠ some '\n' := by
        intro hcr hh
        cases cs with
        | nil => exact hr ⟨hcr, rfl⟩
        | cons d ds =>
          have hd : d = '\n' := by simpa using hh
          subst hcr hd
          exact hn ds rfl rfl
      rw [List.cons_append, linesAfter_end hc hfirst, filled_cons, ih, ← List.append_assoc,
        ← filled_cons]
  | case5 before c cs _ hc ih =>
    rw [List.cons_append, linesAfter_inside (by simpa using hc), ih]

theorem filledLines_joinLines (ls : List String) :
    filledLines (joinLines ls) = ls.flatMap filledLines := by
  induction ls with
  | nil => rfl
  | cons l ls ih =>
    have hjoin : (joinLines (l :: ls)).toList = l.toList ++ '\n' :: (joinLines ls).toList := by
      simp [joinLines]
    rw [filledLines_eq, hjoin, filled_linesAfter, List.flatMap_cons, ← ih]
    rfl

/-- Each filled line of a text is a plain one. -/
theorem filledLines_plain {s : String} : ∀ l ∈ filledLines s, IsPlainLine l := by
  intro l hl
  rw [filledLines_eq] at hl
  obtain ⟨cs, hcs, hl⟩ := List.mem_filterMap.mp hl
  obtain ⟨ds, hds, rfl⟩ := List.mem_map.mp hcs
  split at hl
  · cases hl
  · next he =>
    cases hl
    refine ⟨?_, ?_, ?_⟩
    · intro h
      have h' := congrArg String.toList h
      rw [String.toList_ofList] at h'
      simp [h'] at he
    · rw [strip, String.toList_ofList, trim_trim]
    · intro c hc
      rw [String.toList_ofList] at hc
      exact linesAfter_whole (by simp) ds hds c (mem_of_mem_trim hc)

theorem filledLines_of_plain {l : String} (h : IsPlainLine l) : filledLines l = [l] := by
  have hlines (before cs : List Char) (hc : ∀ c ∈ cs, isLineEnd c = false)
      (hne : before.reverse ++ cs ≠ []) : linesAfter before cs = [before.reverse ++ cs] := by
    induction cs generalizing before with
    | nil =>
      have hb : before ≠ [] := by simpa using hne
      simp [linesAfter, hb]
    | cons c cs ih =>
      rw [linesAfter_inside (hc c (by simp)), ih _ (fun d hd => hc d (by simp [hd])) (by simp)]
      simp
  have hne := toList_ne_nil h.filled
  have hstrip := toList_eq_of_stripped h.stripped
  rw [filledLines_eq, hlines [] l.toList h.whole (by simpa using hne)]
  simp [filled, hstrip, hne]

/-- A text joined from lines reads as these exactly if each of them is plain. -/
theorem filledLines_joinLines_iff {ls : List String} :
    filledLines (joinLines ls) = ls ↔ ∀ l ∈ ls, IsPlainLine l := by
  rw [filledLines_joinLines]
  constructor
  · intro h l hl
    rw [← h] at hl
    obtain ⟨k, _, hk⟩ := List.mem_flatMap.mp hl
    exact filledLines_plain l hk
  · intro h
    induction ls with
    | nil => rfl
    | cons l ls ih =>
      rw [List.flatMap_cons, filledLines_of_plain (h l (by simp)),
        ih (fun k hk => h k (by simp [hk]))]
      rfl

-- Characters that are neither blanks nor boundaries.

section Visible

variable {c : Char} {cs ds : List Char}

/-- A character of the first ones that is neither blank nor a control character. -/
def IsVisible (c : Char) : Prop := 33 ≤ c.toNat ∧ c.toNat ≤ 126

instance : DecidablePred IsVisible := fun _ => inferInstanceAs (Decidable (_ ∧ _))

def AreVisible (cs : List Char) : Prop := ∀ c ∈ cs, IsVisible c

instance : DecidablePred AreVisible := fun cs => List.decidableBAll IsVisible cs

theorem IsVisible.not_blank (h : IsVisible c) : isBlank c = false := by
  obtain ⟨hl, hu⟩ := h
  simp only [isBlank, Bool.or_eq_false_iff, Bool.and_eq_false_iff, decide_eq_false_iff_not]
  omega

theorem IsVisible.not_lineEnd (h : IsVisible c) : isLineEnd c = false := by
  obtain ⟨hl, hu⟩ := h
  simp only [isLineEnd, Bool.or_eq_false_iff, Bool.and_eq_false_iff, decide_eq_false_iff_not]
  omega

theorem isVisible_of_isDigit (h : c.isDigit) : IsVisible c := by
  have hn := toNat_of_isDigit h
  exact ⟨by omega, by omega⟩

theorem AreVisible.append (hc : AreVisible cs) (hd : AreVisible ds) : AreVisible (cs ++ ds) := by
  intro c h
  rcases List.mem_append.mp h with h | h
  · exact hc c h
  · exact hd c h

theorem AreVisible.cons (hc : IsVisible c) (hd : AreVisible ds) : AreVisible (c :: ds) :=
  List.forall_mem_cons.mpr ⟨hc, hd⟩

theorem AreVisible.sublist (hc : AreVisible cs) (h : ds.Sublist cs) : AreVisible ds :=
  fun c hd => hc c (h.mem hd)

theorem areVisible_replicate (n : Nat) (hc : IsVisible c) : AreVisible (List.replicate n c) := by
  intro d hd
  rw [List.eq_of_mem_replicate hd]
  exact hc

theorem areVisible_toDigits (n : Nat) : AreVisible (Nat.toDigits 10 n) :=
  fun c hc => isVisible_of_isDigit (Instruction.isDigit_toDigits n c hc)

theorem isPlainLine_of_visible {s : String} (h : AreVisible s.toList) (hn : s ≠ "") :
    IsPlainLine s where
  filled := hn
  stripped := strip_eq_self (fun c hc => (h c (List.mem_of_mem_head? hc)).not_blank)
    (fun c hc => (h c (List.mem_of_mem_getLast? hc)).not_blank)
  whole c hc := (h c hc).not_lineEnd

/-- A text without blanks at its ends that can stand at the end of a line. -/
def IsTail (s : String) : Prop := s ≠ "" ∧ ∀ c ∈ s.toList, isLineEnd c = false

instance : DecidablePred IsTail := fun s =>
  @instDecidableAnd _ _ inferInstance (List.decidableBAll _ s.toList)

/-- A line of a keyword and a text is plain exactly if the text can end it. -/
theorem isPlainLine_keyword {k s : String} (hk : AreVisible k.toList) (hn : k ≠ "")
    (hs : strip s = s) : IsPlainLine (k ++ " " ++ s) ↔ IsTail s := by
  have hlist : (k ++ " " ++ s).toList = k.toList ++ ' ' :: s.toList := by simp
  have htrim := toList_eq_of_stripped hs
  constructor
  · intro h
    refine ⟨?_, ?_⟩
    · rintro rfl
      have hlast : ∀ c ∈ (trim isBlank (k ++ " " ++ "").toList).getLast?, isBlank c = false :=
        trim_getLast?
      rw [toList_eq_of_stripped h.stripped, hlist] at hlast
      exact absurd (hlast ' ' (by simp)) (by decide)
    · intro c hc
      exact h.whole c (by rw [hlist]; simp [hc])
  · rintro ⟨hne, hwhole⟩
    obtain ⟨a, as, ha⟩ := List.exists_cons_of_ne_nil (toList_ne_nil hn)
    obtain ⟨z, hz⟩ := Option.isSome_iff_exists.mp (List.getLast?_isSome.mpr (toList_ne_nil hne))
    refine ⟨?_, ?_, ?_⟩
    · intro he
      have he' := congrArg String.toList he
      rw [hlist] at he'
      simp at he'
    · refine strip_eq_self ?_ ?_
      · intro c hc
        have he : a = c := by simpa [hlist, ha] using hc
        exact (hk c (by simp [ha, he])).not_blank
      · intro c hc
        have he : z = c := by
          simpa [hlist, List.getLast?_append, List.getLast?_cons, hz] using hc
        rw [← htrim] at hz
        exact trim_getLast? c (he ▸ hz)
    · intro c hc
      rw [hlist] at hc
      rcases List.mem_append.mp hc with hc | hc
      · exact (hk c hc).not_lineEnd
      · rcases List.mem_cons.mp hc with rfl | hc
        · decide
        · exact hwhole c hc

end Visible

end Courier.Text
