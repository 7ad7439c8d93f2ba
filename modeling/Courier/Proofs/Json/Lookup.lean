import Courier.Json.Key

namespace Courier.Json

variable {α : Type} (members : List (String × α)) (key name : String) (v : α)

theorem lookup_cons (m : String × α) :
    lookup (m :: members) name = if m.1 = name then some m.2 else lookup members name := by
  unfold lookup
  by_cases hm : m.1 = name <;> simp [hm]

theorem lookup_append (more : List (String × α)) :
    lookup (members ++ more) name = (lookup members name).or (lookup more name) := by
  simp [lookup, List.find?_append, Option.map_or]

theorem lookup_eq_none_iff : lookup members name = none ↔ name ∉ members.map (·.1) := by
  induction members with
  | nil => simp [lookup]
  | cons m members ih =>
    rw [lookup_cons, List.map_cons, List.mem_cons, not_or, ← ih]
    by_cases hm : m.1 = name
    · simp [hm]
    · simp [hm, Ne.symm hm]

/-- A value that is replaced is replaced under its own name only. -/
theorem lookup_replace :
    lookup (members.map (fun m => if m.1 == key then (m.1, v) else m)) name =
      if key = name then (lookup members name).map (fun _ => v) else lookup members name := by
  induction members with
  | nil => simp [lookup]
  | cons m members ih =>
    rw [List.map_cons, lookup_cons, lookup_cons, ih]
    by_cases hk : m.1 = key <;> by_cases hn : m.1 = name <;> by_cases he : key = name <;> simp_all

/-- What was inserted is found under its key, and all else as before. -/
theorem lookup_insert :
    lookup (insert members key v) name = if key = name then some v else lookup members name := by
  have hany : members.any (·.1 == key) = true ↔ key ∈ members.map (·.1) := by simp
  unfold insert insertBy
  by_cases hmem : key ∈ members.map (·.1)
  · rw [if_pos (hany.mpr hmem), lookup_replace]
    by_cases hk : key = name
    · have hfound : lookup members name ≠ none := by
        intro hnone
        exact (lookup_eq_none_iff members name).mp hnone (hk ▸ hmem)
      obtain ⟨w, hw⟩ := Option.ne_none_iff_exists'.mp hfound
      rw [if_pos hk, if_pos hk, hw]
      rfl
    · rw [if_neg hk, if_neg hk]
  · rw [if_neg fun h => hmem (hany.mp h), lookup_append, lookup_cons]
    by_cases hk : key = name
    · rw [← hk, (lookup_eq_none_iff members key).mpr hmem, if_pos rfl, if_pos rfl]
      rfl
    · rw [if_neg hk, if_neg hk]
      exact Option.or_none

/-- The only entry with a name is found under it. -/
theorem lookup_of_mem {m : String × α} (hn : (members.map (·.1)).Nodup) (hm : m ∈ members) :
    lookup members m.1 = some m.2 := by
  induction members with
  | nil => cases hm
  | cons r rest ih =>
    rw [List.map_cons, List.nodup_cons] at hn
    rw [lookup_cons]
    rcases List.mem_cons.mp hm with rfl | hm
    · exact if_pos rfl
    · have hr : r.1 ≠ m.1 := by
        intro he
        exact hn.1 (he ▸ List.mem_map_of_mem hm)
      rw [if_neg hr]
      exact ih hn.2 hm

end Courier.Json
