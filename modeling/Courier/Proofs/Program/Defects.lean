import Courier.Proofs.Json.Defects
import Courier.Proofs.Program.Resaving

namespace Courier

namespace Json

variable {ms : Members} {key : String} {v : Value}

theorem lookup_member (k : Key) (v : Value) (ms : Members) (key : String) :
    lookup ((k, v) :: ms) (Key.text key) =
      if k = .text key then some v else lookup ms (Key.text key) := by
  unfold lookup
  by_cases hk : k = .text key
  · simp [Key.beq_text, hk]
  · simp [Key.beq_text, hk]

theorem sizeOf_of_mem {m : Key × Value} (h : m ∈ ms) : sizeOf m.2 < sizeOf (Value.object ms) := by
  have hlist := List.sizeOf_lt_of_mem h
  obtain ⟨k, v⟩ := m
  simp only [Prod.mk.sizeOf_spec] at hlist
  simp only [Value.object.sizeOf_spec]
  omega

theorem sizeOf_of_lookup (h : lookup ms (Key.text key) = some v) :
    sizeOf v < sizeOf (Value.object ms) := by
  obtain ⟨m, hm, rfl⟩ := mem_of_lookup h
  exact sizeOf_of_mem hm

end Json

namespace Program

open Json (Key Value Members)

/-- The entry that a link or a slot leads to. -/
def target? (wrapper : Value) : Option Value :=
  match wrapper.member? "block" with
  | some .null => none
  | found => found

/-- The entry after one with these members. -/
def next? (ms : Members) : Option Value := (Json.lookup ms "next").bind target?

/-- The entries in the slots among these members. -/
def contents (ms : Members) : List Value :=
  match Json.lookup ms "inputs" with
  | some (.object slots) => slots.filterMap (fun slot => target? slot.2)
  | _ => []

variable {n : Bool} {ms ws : Members} {slot : String} {v wrapper : Value}

theorem sizeOf_target? (h : target? wrapper = some v) : sizeOf v < sizeOf wrapper := by
  unfold target? at h
  cases wrapper with
  | object ws =>
    have hfound : Json.lookup ws (Key.text "block") = some v := by
      split at h
      · cases h
      · exact h
    exact Json.sizeOf_of_lookup hfound
  | _ => cases h

theorem sizeOf_next? (h : next? ms = some v) : sizeOf v < sizeOf (Value.object ms) := by
  obtain ⟨wrapper, hw, hv⟩ := Option.bind_eq_some_iff.mp h
  exact Nat.lt_trans (sizeOf_target? hv) (Json.sizeOf_of_lookup hw)

theorem sizeOf_contents (h : v ∈ contents ms) : sizeOf v < sizeOf (Value.object ms) := by
  unfold contents at h
  split at h
  · next slots hslots =>
    obtain ⟨m, hm, hv⟩ := List.mem_filterMap.mp h
    exact Nat.lt_trans (Nat.lt_trans (sizeOf_target? hv) (Json.sizeOf_of_mem hm))
      (Json.sizeOf_of_lookup hslots)
  · cases h

/-- Why slots cannot be looked for: there is something else in their place. -/
def slotFaults (ms : Members) : List Fault :=
  match Json.lookup ms "inputs" with
  | some (.object _) => []
  | some v => if v.isFilled then [.shape .memberless] else []
  | none => []

/-- Why the type and the fields of a block cannot be read. -/
def labelFaults (ms : Members) : List Fault :=
  ((Json.lookup ms "type").getD .null).textFaults ++
    ((Json.lookup ms "fields").getD .null).memberFaults

/-- All that is wrong with the sequence that starts at an entry. A number or a truth value in a slot
cannot be asked for what follows it. -/
def sequenceFaults (v : Value) : List Fault :=
  match v with
  | .null => []
  | .object ms =>
    if hasKey ms "type" then
      -- `attach` keeps for the recursion that the contents are parts of the entry.
      slotFaults ms ++
        ((contents ms).attach.flatMap (fun v =>
          if v.1.number?.isSome then [.shape .kind] else sequenceFaults v.1) ++
        (labelFaults ms ++ match _h : next? ms with
          | some v => sequenceFaults v
          | none => []))
    else [.showing (.object ms) (.blockEntry (.object ms))]
  | v => [.showing v (.blockEntry v)]
termination_by sizeOf v
decreasing_by
  · exact sizeOf_contents v.2
  · exact sizeOf_next? _h

/-- All that is wrong with the content of a slot. -/
def contentFaults (v : Value) : List Fault :=
  if v.number?.isSome then [.shape .kind] else sequenceFaults v

theorem sequenceFaults_other (hnull : v ≠ .null) (hobject : ∀ ms, v ≠ .object ms) :
    sequenceFaults v = [.showing v (.blockEntry v)] := by
  rw [sequenceFaults.eq_def]
  cases v with
  | null => exact absurd rfl hnull
  | object ms => exact absurd rfl (hobject ms)
  | _ => rfl

theorem contentFaults_of_number? (h : v.number? = none) : contentFaults v = sequenceFaults v := by
  rw [contentFaults, h]
  rfl

theorem sequenceFaults_block (h : hasKey ms "type" = true) :
    sequenceFaults (.object ms) = slotFaults ms ++
      ((contents ms).flatMap contentFaults ++ (labelFaults ms ++
        ((next? ms).map sequenceFaults).getD [])) := by
  have hattach : (contents ms).attach.flatMap (fun v => contentFaults v.1) =
      (contents ms).flatMap contentFaults := by
    rw [← List.flatMap_map, List.attach_map_subtype_val]
  rw [sequenceFaults, if_pos h, ← hattach]
  split
  · next v hv =>
    rw [hv]
    rfl
  · next hnone =>
    rw [hnone]
    rfl

section Read

theorem following_eq (n : Bool) (ms : Members) :
    following n ms =
      match next? ms with
      | some v => chain n v
      | none => .ok [] := by
  have hlinked (ws : Members) : linked n ws =
      match target? (.object ws) with
      | some v => chain n v
      | none => .ok [] := by
    induction ws with
    | nil => rfl
    | cons m ws ih =>
      obtain ⟨k, v⟩ := m
      rw [linked, ih]
      unfold target? Value.member?
      dsimp only
      rw [Json.lookup_member]
      split
      · cases v <;> rfl
      · rfl
  induction ms with
  | nil => rfl
  | cons m ms ih =>
    obtain ⟨k, v⟩ := m
    rw [following.eq_def]
    unfold next? at ih ⊢
    dsimp only
    rw [ih, Json.lookup_member]
    split
    · cases v with
      | object ws => exact hlinked ws
      | _ => rfl
    · rfl

theorem slotsOf_eq (n : Bool) (ms : Members) :
    slotsOf n ms =
      match Json.lookup ms "inputs" with
      | some (.object slots) => slotsFrom n slots
      | some v => if v.isFilled then .error (.shape .memberless) else .ok .empty
      | none => .ok .empty := by
  induction ms with
  | nil => rfl
  | cons m ms ih =>
    obtain ⟨k, v⟩ := m
    rw [slotsOf.eq_def]
    dsimp only
    rw [ih, Json.lookup_member]
    split
    · cases v <;> rfl
    · rfl

/-- What is read of the content of a slot. -/
def content (n : Bool) (slot : String) (v : Value) : Except Fault Slots :=
  slotContent n slot [("block", v)]

theorem found_eq (n : Bool) (slot : Key) (wrapper : Value) :
    found n slot wrapper =
      match target? wrapper with
      | some v => content n slot.plain v
      | none => .ok .empty := by
  cases wrapper with
  | object ws =>
    unfold found
    dsimp only
    induction ws with
    | nil => rfl
    | cons m ws ih =>
      obtain ⟨k, v⟩ := m
      unfold target? Value.member? at ih ⊢
      dsimp only at ih ⊢
      rw [slotContent.eq_def, Json.lookup_member]
      dsimp only
      split
      · cases v <;> rfl
      · rw [ih]
  | _ => rfl

theorem lookup_of_hasKey {key : String} (h : hasKey ms (Key.text key) = false) :
    Json.lookup ms (Key.text key) = none := by
  unfold Json.lookup
  rw [Option.map_eq_none_iff, List.find?_eq_none]
  simpa [hasKey] using h

/-- A block that nothing can follow is a sequence. -/
theorem chain_alone (h : hasKey ms "next" = false) :
    chain n (.object ms) = single n (.object ms) >>= fun b => .ok [b] := by
  have hnone : next? ms = none := by
    rw [next?, lookup_of_hasKey h]
    rfl
  have hend : following n ms = .ok [] := by rw [following_eq, hnone]
  rw [chain, single]
  split
  · cases slotsOf n ms with
    | error f => rfl
    | ok s =>
      rw [ok_bind, ok_bind, hend]
      cases assemble n ms s <;> rfl
  · rfl

theorem assemble_stops (n : Bool) (ms : Members) (s : Slots) :
    StopsAt (labelFaults ms) (assemble n ms s) :=
  (Value.toPlain_stops _).bind fun _ _ => (Value.toMembers_stops n _).bind_ok _

theorem slotsFrom_stops {slots : Members}
    (h : ∀ m ∈ slots, ∀ v, target? m.2 = some v → StopsAt (contentFaults v) (content n m.1.plain v)) :
    StopsAt ((slots.filterMap (fun slot => target? slot.2)).flatMap contentFaults)
      (slotsFrom n slots) := by
  induction slots with
  | nil => exact .ok _
  | cons m slots ih =>
    obtain ⟨hm, hslots⟩ := List.forall_mem_cons.mp h
    rw [slotsFrom_eq, found_eq, List.filterMap_cons]
    cases ht : target? m.2 with
    | none => exact (ih hslots).bind_ok _
    | some v =>
      rw [List.flatMap_cons]
      exact (hm v ht).bind fun s _ => (ih hslots).bind_ok _

theorem slotsOf_stops
    (h : ∀ v ∈ contents ms, ∀ slot, StopsAt (contentFaults v) (content n slot v)) :
    StopsAt (slotFaults ms ++ (contents ms).flatMap contentFaults) (slotsOf n ms) := by
  rw [slotsOf_eq]
  unfold contents at h ⊢
  unfold slotFaults
  cases hslots : Json.lookup ms (Key.text "inputs") with
  | none => exact .ok _
  | some v =>
    rw [hslots] at h
    cases v with
    | object slots =>
      exact slotsFrom_stops fun m hm v hv => h v (List.mem_filterMap.mpr ⟨m, hm, hv⟩) _
    | _ =>
      dsimp only
      split
      · rfl
      · exact .ok _

/-- Reading a block alone stops where reading the sequence of it does. -/
theorem single_stops {fs : List Fault} (hnext : hasKey ms "next" = false)
    (h : StopsAt fs (chain n (.object ms))) : StopsAt fs (single n (.object ms)) := by
  rw [chain_alone hnext] at h
  exact h.of_bind_ok

theorem content_stops (h : StopsAt (sequenceFaults v) (chain n v)) (slot : String) :
    StopsAt (contentFaults v) (content n slot v) := by
  cases v with
  | null =>
    rw [contentFaults_of_number? rfl, sequenceFaults]
    exact .ok _
  | bool b => rfl
  | number x => rfl
  | text s =>
    rw [contentFaults_of_number? rfl, sequenceFaults_other (by simp) (by simp)]
    exact .error _
  | list vs =>
    rw [contentFaults_of_number? rfl, sequenceFaults_other (by simp) (by simp)]
    exact .error _
  | object inner =>
    rw [contentFaults_of_number? rfl, content, slotContent]
    simp only [if_true]
    split
    · exact h.bind_ok _
    · next hslot =>
      rw [Bool.or_eq_true, not_or, Bool.not_eq_true] at hslot
      exact (single_stops hslot.1 h).bind_ok _

/-- Reading a sequence stops at the first of its faults. -/
theorem chain_stops (n : Bool) (v : Value) : StopsAt (sequenceFaults v) (chain n v) := by
  match v with
  | .null =>
    rw [sequenceFaults]
    exact .ok _
  | .object ms =>
    by_cases h : hasKey ms "type" = true
    · -- First the slots are read, then the type and the fields, then what follows.
      rw [sequenceFaults_block h, chain, if_pos h, ← List.append_assoc]
      have hslots : StopsAt (slotFaults ms ++ (contents ms).flatMap contentFaults)
          (slotsOf n ms) := by
        exact slotsOf_stops fun v hv slot => content_stops (chain_stops n v) slot
      refine hslots.bind fun s _ => (assemble_stops n ms s).bind fun b _ => ?_
      rw [following_eq]
      cases hnext : next? ms with
      | none => exact .ok _
      | some v => exact (chain_stops n v).bind_ok _
    · rw [sequenceFaults, if_neg h, chain, if_neg h]
      exact .error _
  | .bool _ | .number _ | .text _ | .list _ =>
    rw [sequenceFaults_other (by simp) (by simp)]
    exact .error _
termination_by sizeOf v
decreasing_by
  · exact sizeOf_contents hv
  · exact sizeOf_next? hnext

end Read

/-- All that is wrong with a program document. -/
def documentFaults (document : Value) : List Fault :=
  match entries? document with
  | some vs => vs.flatMap sequenceFaults
  | none => [.format .programPayload]

theorem ofDocument_stops (n : Bool) (document : Value) :
    StopsAt (documentFaults document) (ofDocument n document) := by
  unfold documentFaults ofDocument
  cases entries? document with
  | none => exact .error _
  | some vs => exact (StopsAt.mapM fun v _ => chain_stops n v).bind_ok _

section Kinds

variable {f : Fault}

theorem ofReading_of_slotFaults (h : f ∈ slotFaults ms) : f.OfReading := by
  unfold slotFaults at h
  split at h
  · cases h
  · split at h
    · exact .of_mem_singleton .memberless h
    · cases h
  · cases h

theorem ofReading_of_contentFaults (hv : f ∈ sequenceFaults v → f.OfReading)
    (h : f ∈ contentFaults v) : f.OfReading := by
  unfold contentFaults at h
  split at h
  · exact .of_mem_singleton .kind h
  · exact hv h

theorem ofReading_of_labelFaults (h : f ∈ labelFaults ms) : f.OfReading := by
  rcases List.mem_append.mp h with h | h
  · exact Value.ofReading_of_textFaults h
  · exact Value.ofReading_of_memberFaults h

theorem ofReading_of_sequenceFaults {v : Value} (h : f ∈ sequenceFaults v) : f.OfReading := by
  match v with
  | .null =>
    rw [sequenceFaults] at h
    cases h
  | .object ms =>
    by_cases ht : hasKey ms "type" = true
    · rw [sequenceFaults_block ht, List.mem_append, List.mem_append, List.mem_append] at h
      rcases h with h | h | h | h
      · exact ofReading_of_slotFaults h
      · obtain ⟨v, hv, hf⟩ := List.mem_flatMap.mp h
        exact ofReading_of_contentFaults ofReading_of_sequenceFaults hf
      · exact ofReading_of_labelFaults h
      · cases hnext : next? ms with
        | none =>
          rw [hnext] at h
          cases h
        | some v =>
          rw [hnext] at h
          exact ofReading_of_sequenceFaults h
    · rw [sequenceFaults, if_neg ht] at h
      exact (Fault.showing_ofReading _ _).of_mem_singleton h
  | .bool _ | .number _ | .text _ | .list _ =>
    rw [sequenceFaults_other (by simp) (by simp)] at h
    exact (Fault.showing_ofReading _ _).of_mem_singleton h
termination_by sizeOf v
decreasing_by
  · exact sizeOf_contents hv
  · exact sizeOf_next? hnext

end Kinds

/-- Reading a document stops at the first of its faults and comes to a program if there are none. It
reports the document exactly if the first fault is one of the format, and the others are known. -/
theorem program_reported_iff (nanEqual : Bool) (document : Value) :
    StopsAt (documentFaults document) (ofDocument nanEqual document) ∧
      (IsReported (ofDocument nanEqual document) ↔
        ∀ f ∈ (documentFaults document).head?, ∃ cause, f = .format cause) ∧
      ∀ f ∈ documentFaults document, f.OfReading := by
  have hstops := ofDocument_stops nanEqual document
  refine ⟨hstops, hstops.reported_iff, fun f hf => ?_⟩
  unfold documentFaults at hf
  split at hf
  · obtain ⟨v, _, hv⟩ := List.mem_flatMap.mp hf
    exact ofReading_of_sequenceFaults hv
  · exact .of_mem_singleton (.format _) hf

/-- A list in place of the slots, a number in place of the fields, a pair without a value among
them and a number in a slot are not reported. -/
theorem program_not_reported :
    ¬IsReported (ofDocument true (.object [("type", .text "turn_left"), ("inputs", .list [.null])])) ∧
    ¬IsReported (ofDocument true (.object [("type", .text "turn_left"), ("fields", .int 1)])) ∧
    ¬IsReported (ofDocument true
      (.object [("type", .text "turn_left"), ("fields", .list [.text "A"])])) ∧
    ¬IsReported (ofDocument true (.object [("type", .text "turn_left"),
      ("inputs", .object [("DO", .object [("block", .int 1)])])])) := by
  refine ⟨?_, ?_, ?_, ?_⟩ <;> rintro (⟨p, h⟩ | ⟨cause, h⟩) <;> cases h

end Program

end Courier
