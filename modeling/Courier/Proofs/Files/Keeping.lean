import Mathlib.Data.List.Infix
import Courier.Proofs.Text.Lines
import Courier.Run.Headless

namespace Courier

namespace Store

variable {s s' : Store} {ns ms d r names : List String} {name : String} {c : Content} {p : Path}

/-- The names that a store has files for. -/
def fileNames (s : Store) : List (List String) := s.files.map (·.1)

theorem isDirectory_iff : s.isDirectory ns ↔ ns <+: s.directory ∨ (∃ m ∈ s.made, ns <+: m) ∨
    ∃ f ∈ s.fileNames, ns <+: f ∧ ns ≠ f := by
  simp [isDirectory, fileNames, or_assoc]

/-- What stands on the way to a directory is one. -/
theorem isDirectory_of_way (h : s.isDirectory ns) (hp : ms <+: ns) : s.isDirectory ms := by
  rw [isDirectory_iff] at h ⊢
  rcases h with h | ⟨m, hm, h⟩ | ⟨f, hf, h, hne⟩
  · exact .inl (hp.trans h)
  · exact .inr (.inl ⟨m, hm, hp.trans h⟩)
  · refine .inr (.inr ⟨f, hf, hp.trans h, ?_⟩)
    rintro rfl
    exact hne (h.eq_of_length_le hp.length_le)

theorem isDirectory_origin (s : Store) (p : Path) : s.isDirectory (s.origin p) := by
  rw [isDirectory_iff]
  unfold origin
  split
  · exact .inl List.nil_prefix
  · exact .inl List.prefix_rfl

theorem isDirectory_enter (hd : s.isDirectory d) (h : s.enter d ns = .ok r) : s.isDirectory r := by
  fun_induction enter s d ns with
  | case1 d =>
    cases h
    exact hd
  | case2 d names ih => exact ih (isDirectory_of_way hd (List.dropLast_prefix d)) h
  | case3 => cases h
  | case4 d name names _ next hlong hnext ih => exact ih hnext h
  | case5 => cases h
  | case6 => cases h

/-- A way stays the same as long as no directory goes. -/
theorem enter_mono (hs : ∀ ns, s.isDirectory ns → s'.isDirectory ns) (h : s.enter d ns = .ok r) :
    s'.enter d ns = .ok r := by
  fun_induction enter s d ns with
  | case1 d => exact h
  | case2 d names ih => exact ih h
  | case3 => cases h
  | case4 d name names hname next hlong hnext ih =>
    rw [enter, if_neg hlong, if_pos (hs _ hnext)]
    · exact ih h
    · exact hname
  | case5 => cases h
  | case6 => cases h

theorem file?_put (s : Store) (names : List String) (c : Content) :
    (s.put names c).file? names = some c := by
  unfold put
  split
  · next h =>
    obtain ⟨old, hold⟩ := Option.isSome_iff_exists.mp h
    obtain ⟨f, hf, _⟩ := Option.map_eq_some_iff.mp hold
    have hname : f.1 = names := by simpa using List.find?_some hf
    have hsome : ((s.files.map (fun f => if f.1 = names then (names, c) else f)).find?
        (·.1 = names)) = some (names, c) := by
      rw [List.find?_map]
      have hkeep : ((fun f : List String × Content => decide (f.1 = names)) ∘
          fun f => if f.1 = names then (names, c) else f) = fun f => decide (f.1 = names) := by
        funext g
        by_cases hg : g.1 = names <;> simp [hg]
      rw [hkeep, hf, Option.map_some, if_pos hname]
    unfold file?
    rw [hsome]
    rfl
  · next h =>
    have hnone : s.files.find? (·.1 = names) = none := by
      cases hf : s.files.find? (·.1 = names) with
      | none => rfl
      | some f => simp [file?, hf] at h
    unfold file?
    rw [List.find?_append, hnone]
    simp

theorem fileNames_put (s : Store) (names : List String) (c : Content) :
    (s.put names c).fileNames = s.fileNames ∨
      (s.put names c).fileNames = s.fileNames ++ [names] := by
  unfold put
  split
  · have hkeep : (s.files.map (fun f => if f.1 = names then (names, c) else f)).map (·.1) =
        s.fileNames := by
      rw [List.map_map]
      refine List.map_congr_left fun f _ => ?_
      by_cases hf : f.1 = names <;> simp [hf]
    exact .inl hkeep
  · exact .inr (by simp [fileNames])

theorem directory_put (s : Store) (names : List String) (c : Content) :
    (s.put names c).directory = s.directory := by
  unfold put
  split <;> rfl

theorem made_put (s : Store) (names : List String) (c : Content) :
    (s.put names c).made = s.made := by
  unfold put
  split <;> rfl

/-- A file in a directory makes no other directory. -/
theorem isDirectory_put (hd : s.isDirectory d) :
    (s.put (d ++ [name]) c).isDirectory ns = s.isDirectory ns := by
  rw [Bool.eq_iff_iff, isDirectory_iff, isDirectory_iff, directory_put, made_put]
  rcases fileNames_put s (d ++ [name]) c with hf | hf
  · rw [hf]
  · rw [hf]
    constructor
    · rintro (h | h | ⟨f, hmem, hp, hne⟩)
      · exact .inl h
      · exact .inr (.inl h)
      · rcases List.mem_append.mp hmem with hmem | hmem
        · exact .inr (.inr ⟨f, hmem, hp, hne⟩)
        · rw [List.mem_singleton.mp hmem] at hp hne
          have hway := (List.prefix_concat_iff.mp hp).resolve_left hne
          exact isDirectory_iff.mp (isDirectory_of_way hd hway)
    · rintro (h | h | ⟨f, hmem, hp, hne⟩)
      · exact .inl h
      · exact .inr (.inl h)
      · exact .inr (.inr ⟨f, List.mem_append_left _ hmem, hp, hne⟩)

/-- A place is a name in a directory, and stays where it is as long as the directories do. -/
theorem place_ok (h : s.place p = .ok names) : ∃ d name, s.isDirectory d ∧ names = d ++ [name] ∧
    ∀ s' : Store, s'.directory = s.directory → (∀ ns, s'.isDirectory ns = s.isDirectory ns) →
      s'.place p = .ok names := by
  obtain ⟨_, hpath, h⟩ := bind_eq_ok h
  split at h
  · cases h
  · obtain ⟨_, _, h⟩ := bind_eq_ok h
    cases h
  · next name hne hlast =>
    obtain ⟨d, hd, h⟩ := bind_eq_ok h
    dsimp only at h
    split at h
    · cases h
    · next hlong =>
      split at h
      · cases h
      · next hdir =>
        cases h
        refine ⟨d, name, isDirectory_enter (isDirectory_origin s p) hd, rfl, ?_⟩
        intro s' hdirectory hsame
        have horigin : s'.origin p = s.origin p := by
          unfold origin
          rw [hdirectory]
        have henter : s'.enter (s.origin p) p.names.dropLast = .ok d :=
          enter_mono (fun ns hns => by rw [hsame, hns]) hd
        unfold place
        rw [hpath, ok_bind, hlast, horigin]
        split
        · next he => cases he
        · next he => exact absurd (Option.some.inj he) hne
        · next he =>
          cases he
          rw [henter, ok_bind]
          dsimp only
          rw [if_neg hlong, hsame, if_neg hdir]
          rfl

theorem readText_write {t : String} (h : s.write p (.text t) = .ok s') : s'.readText p = .ok t := by
  obtain ⟨names, hplace, h⟩ := bind_eq_ok h
  cases h
  obtain ⟨d, name, hd, rfl, hstays⟩ := place_ok hplace
  have hagain := hstays (s.put (d ++ [name]) (.text t)) (directory_put _ _ _)
    (fun ns => isDirectory_put hd)
  unfold readText
  rw [hagain, ok_bind, file?_put]
  rfl

end Store

namespace OnFiles

open Text

variable {s s' : Store} {p : Path} {ls : List String} {t : String}

/-- A step on a store after which another one follows. -/
theorem bind_apply {α β : Type} (m : OnFiles α) (f : α → OnFiles β) (s : Store) :
    (m >>= f) s =
      match m s with
      | (.ok a, s') => f a s'
      | (.error e, s') => (.error e, s') := by
  have hbind : (m >>= f) s = (ExceptT.bindCont f (m s).1) (m s).2 := rfl
  rw [hbind]
  obtain ⟨r, s'⟩ := m s
  cases r <;> rfl

theorem writeLines_ok (h : writeLines p ls s = (.ok (), s')) :
    ∃ s₁ : Store, s₁.write p (.text (joinLines ls)) = .ok s' := by
  rw [writeLines, bind_apply] at h
  split at h
  · next s₁ _ =>
    unfold write update at h
    split at h
    · next hw =>
      cases h
      exact ⟨s₁, hw⟩
    · cases h
  · cases h

theorem readLines_of_readText (h : s.readText p = .ok t) :
    readLines p s = (.ok (filledLines t), s) := by
  have hread : readText p s = (.ok t, s) := by rw [readText, h]
  rw [readLines, bind_apply, hread, ← filledLines_ofFile]
  rfl

/-- Lines that are kept in a file read back as the filled lines in each of them, so plain ones as
they are; and any text in a file reads as its filled lines. -/
theorem lines_read_back (ls : List String) (p : Path) (s : Store) :
    (∀ s', writeLines p ls s = (.ok (), s') →
      readLines p s' = (.ok (ls.flatMap filledLines), s') ∧
        ((∀ l ∈ ls, IsPlainLine l) → readLines p s' = (.ok ls, s'))) ∧
      ∀ t, s.readText p = .ok t → readLines p s = (.ok (filledLines t), s) := by
  refine ⟨fun s' h => ?_, fun t ht => readLines_of_readText ht⟩
  obtain ⟨s₁, hw⟩ := writeLines_ok h
  have hread := readLines_of_readText (Store.readText_write hw)
  constructor
  · rw [hread, filledLines_joinLines]
  · intro hplain
    rw [hread, filledLines_joinLines_iff.mpr hplain]

/-- Lines that are none: with a carriage return at the end, blank, and with a boundary inside. -/
def ragged : List String := ["TURN_LEFT\r", " \t", "WAIT 2\x0bPICKUP"]

/-- A store with the file of these lines in a directory of its own. -/
def raggedStore : Store :=
  ⟨["home"], [(["home", "runs", "program.txt"], .text "TURN_LEFT\r\n \t\nWAIT 2\x0bPICKUP\n")],
    [["home", "runs"]]⟩

theorem lines_read_back_ragged :
    writeLines ⟨0, ["runs", "program.txt"]⟩ ragged ⟨["home"], [], []⟩ = (.ok (), raggedStore) ∧
      readLines ⟨0, ["runs", "program.txt"]⟩ raggedStore =
        (.ok ["TURN_LEFT", "WAIT 2", "PICKUP"], raggedStore) := by
  have hwrite : writeLines ⟨0, ["runs", "program.txt"]⟩ ragged ⟨["home"], [], []⟩ =
      (.ok (), raggedStore) := rfl
  have hlines : ragged.flatMap filledLines = ["TURN_LEFT", "WAIT 2", "PICKUP"] := by
    decide +kernel
  have hread := ((lines_read_back ragged _ _).1 _ hwrite).1
  rw [hlines] at hread
  exact ⟨hwrite, hread⟩

end OnFiles

end Courier
