import Mathlib
import Courier.Proofs.Files.Containment

namespace Courier.Path

/-- ASCII letters, digits, the underscore and the hyphen. -/
def IsRunCharacter (c : Char) : Prop :=
  ('A' ≤ c ∧ c ≤ 'Z') ∨ ('a' ≤ c ∧ c ≤ 'z') ∨ ('0' ≤ c ∧ c ≤ '9') ∨ c = '_' ∨ c = '-'

instance (c : Char) : Decidable (IsRunCharacter c) := inferInstanceAs (Decidable (_ ∨ _))

structure IsRunName (s : String) : Prop where
  filled : s ≠ ""
  safe : ∀ c ∈ s.toList, IsRunCharacter c

/-- A text that is taken for the name of a run: a name, or one with a line feed after it. -/
def IsTaken (s : String) : Prop := ∃ name, IsRunName name ∧ (s = name ∨ s = name ++ "\n")

variable {s : String} {c : Char}

theorem isRunCharacter_iff : IsRunCharacter c ↔ (c.isAlphanum || c = '_' || c = '-') := by
  simp [IsRunCharacter, Char.isAlphanum, Char.isAlpha, Char.isUpper, Char.isLower, Char.isDigit,
    Char.le_def, or_assoc]

theorem isRunName_iff {cs : List Char} (h : s.toList.reverse = cs) :
    IsRunName s ↔ cs ≠ [] ∧ ∀ c ∈ cs, IsRunCharacter c := by
  subst h
  constructor
  · intro hs
    exact ⟨by simpa using hs.filled, by simpa using hs.safe⟩
  · intro hs
    exact ⟨by simpa using hs.1, by simpa using hs.2⟩

theorem reverse_feed (name : String) :
    (name ++ "\n").toList.reverse = '\n' :: name.toList.reverse := by
  rw [String.toList_append, List.reverse_append]
  rfl

/-- A text that ends in a line feed is taken for what stands before it. -/
theorem isTaken_feed {cs : List Char} (h : s.toList.reverse = '\n' :: cs) :
    IsTaken s ↔ cs ≠ [] ∧ ∀ c ∈ cs, IsRunCharacter c := by
  constructor
  · rintro ⟨name, hname, rfl | rfl⟩
    · have hfeed := ((isRunName_iff h).mp hname).2 '\n' List.mem_cons_self
      exact absurd hfeed (by decide)
    · rw [reverse_feed, List.cons.injEq] at h
      exact (isRunName_iff h.2).mp hname
  · intro hcs
    have hname : (String.ofList cs.reverse).toList.reverse = cs := by simp
    refine ⟨String.ofList cs.reverse, (isRunName_iff hname).mpr hcs, .inr ?_⟩
    rw [← String.toList_inj, ← List.reverse_inj, h, reverse_feed, hname]

theorem isTaken_plain (h : ∀ cs, s.toList.reverse ≠ '\n' :: cs) : IsTaken s ↔ IsRunName s := by
  constructor
  · rintro ⟨name, hname, rfl | rfl⟩
    · exact hname
    · exact absurd (reverse_feed name) (h _)
  · exact fun hs => ⟨s, hs, .inl rfl⟩

theorem isRunId_iff : isRunId s ↔ IsTaken s := by
  have hall (cs : List Char) :
      cs.all (fun c => c.isAlphanum || c = '_' || c = '-') = true ↔ ∀ c ∈ cs, IsRunCharacter c := by
    simp only [List.all_eq_true, isRunCharacter_iff]
  unfold isRunId
  split
  · next h =>
    rw [isTaken_plain (by simp [h]), isRunName_iff h]
    simp
  · next cs h =>
    rw [isTaken_feed h, Bool.and_eq_true, hall]
    simp
  · next hfilled hfeed =>
    rw [isTaken_plain hfeed, isRunName_iff rfl, hall]
    exact (and_iff_right hfilled).symm

/-- A text that is taken holds nothing that a path reads. -/
theorem IsTaken.not_mem (h : IsTaken s) (hc : ¬IsRunCharacter c) (hfeed : c ≠ '\n') :
    c ∉ s.toList := by
  obtain ⟨name, hname, rfl | rfl⟩ := h
  · exact fun hmem => hc (hname.safe c hmem)
  · rw [String.toList_append, List.mem_append, not_or]
    exact ⟨fun hmem => hc (hname.safe c hmem), by simpa using hfeed⟩

theorem IsTaken.isFileName (h : IsTaken s) : IsFileName s := by
  have hdot : '.' ∉ s.toList := h.not_mem (by decide) (by decide)
  refine ⟨?_, ?_, ?_, h.not_mem (by decide) (by decide), h.not_mem (by decide) (by decide)⟩
  · rintro rfl
    obtain ⟨name, hname, he | he⟩ := h
    · exact hname.filled he.symm
    · exact absurd (congrArg String.toList he) (by simp)
  · rintro rfl
    exact hdot (by decide)
  · rintro rfl
    exact hdot (by decide)

/-- A name leads to the child of that name. -/
theorem landing_name (h : IsFileName s) (place : List String) : landing place s = place ++ [s] := by
  have hparts : parts s = [s] := by
    rw [parts, List.splitOn_eq_singleton h.noSlash, List.map_singleton, String.ofList_toList]
  have hhead : s.toList.head? ≠ some '/' := fun he => h.noSlash (List.mem_of_head? he)
  rw [landing, hparts, if_neg hhead, List.foldl_cons, List.foldl_nil,
    enter_kept ⟨h.filled, h.not_here, h.noSlash⟩ h.not_up]

theorem runDirectory_taken {t : Terrain} {directory : List String} (ht : t.links = [])
    (hd : ∀ n ∈ directory, IsFileName n) {base : String} (hbase : HasNoNull base)
    (hs : IsTaken s) :
    runDirectory t directory (parse base) s = .ok (landing directory base ++ [s]) := by
  rw [runDirectory, if_pos (isRunId_iff.mpr hs),
    resolveWithin_parse ht hd hbase hs.isFileName.noNull, landing_name hs.isFileName,
    if_pos (List.prefix_append _ _)]

/-- A run has the directory of its name under the base, whatever the base is, exactly if its name
consists of letters, digits, underscores and hyphens, and perhaps of a line feed at the end. -/
theorem runDirectory_named {t : Terrain} {directory : List String} (ht : t.links = [])
    (hd : ∀ n ∈ directory, IsFileName n) (base runId : String) :
    (IsTaken runId → runDirectory t directory (parse base) runId =
        (resolve t directory (parse base)).map (· ++ [runId])) ∧
      (¬IsTaken runId → runDirectory t directory (parse base) runId =
        .error (.value (.runId runId))) ∧
      (HasNoNull base → resolve t directory (parse base) = .ok (landing directory base)) ∧
      (¬HasNoNull base → resolve t directory (parse base) = .error .nullInPath) := by
  refine ⟨fun h => ?_, fun h => if_neg (mt isRunId_iff.mp h), resolve_parse ht hd,
    resolve_parse_null ht hd⟩
  by_cases hbase : HasNoNull base
  · rw [runDirectory_taken ht hd hbase h, resolve_parse ht hd hbase]
    rfl
  · rw [runDirectory, if_pos (isRunId_iff.mpr h), resolve_parse_null ht hd hbase,
      resolveWithin_null ht hd (fun hc => hbase hc.1)]
    rfl

theorem runDirectory_named_first :
    Terrain.bare.links = [] ∧ (∀ n ∈ ["srv"], IsFileName n) ∧
      runDirectory .bare ["srv"] (parse "../runs/") "abc-1" = .ok ["runs", "abc-1"] ∧
      runDirectory .bare ["srv"] (parse "../runs/") "a/b" = .error (.value (.runId "a/b")) := by
  have hd : ∀ n ∈ ["srv"], IsFileName n := by decide
  obtain ⟨htaken, -, hroot, -⟩ := runDirectory_named (t := .bare) rfl hd "../runs/" "abc-1"
  obtain ⟨-, hrefused, -, -⟩ := runDirectory_named (t := .bare) rfl hd "../runs/" "a/b"
  have hplace : landing ["srv"] "../runs/" ++ ["abc-1"] = ["runs", "abc-1"] := by decide
  refine ⟨rfl, hd, ?_, hrefused (mt isRunId_iff.mpr (by decide))⟩
  rw [htaken (isRunId_iff.mp (by decide)), hroot (by decide), ← hplace]
  rfl

/-- A line feed is no character of a name, and yet it can end the name of a directory. -/
theorem runDirectory_feed :
    ¬IsRunName "a\n" ∧ runDirectory .bare [] (parse "runs") "a\n" = .ok ["runs", "a\n"] := by
  have htaken : IsTaken "a\n" := isRunId_iff.mp (by decide)
  have hplace : landing [] "runs" ++ ["a\n"] = ["runs", "a\n"] := by decide
  refine ⟨fun h => absurd (h.safe '\n' (by decide)) (by decide), ?_⟩
  rw [← hplace]
  exact runDirectory_taken rfl (by simp) (by decide) htaken

end Courier.Path
