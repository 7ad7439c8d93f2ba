import Courier.Proofs.Program.Naming

namespace Courier.Program

open Json (Key Value Members)

namespace Slots

def append (s t : Slots) : Slots := ⟨s.statements ++ t.statements, s.inputs ++ t.inputs⟩

instance : Append Slots := ⟨append⟩

@[simp] theorem statements_append (s t : Slots) :
    (s ++ t).statements = s.statements ++ t.statements := rfl

@[simp] theorem inputs_append (s t : Slots) : (s ++ t).inputs = s.inputs ++ t.inputs := rfl

theorem append_assoc (s t u : Slots) : s ++ t ++ u = s ++ (t ++ u) := by
  show Slots.mk (s.statements ++ t.statements ++ u.statements) (s.inputs ++ t.inputs ++ u.inputs) =
    Slots.mk (s.statements ++ (t.statements ++ u.statements)) (s.inputs ++ (t.inputs ++ u.inputs))
  rw [List.append_assoc, List.append_assoc]

end Slots

/-- A sequence in a slot as it is read again: none, if it is empty; in an input slot, if it is a
single block and the slot is not one that holds sequences in every case. -/
def placed (slot : String) : List Block → Slots
  | [] => .empty
  | [b] => if isStatementSlot slot then ⟨[(slot, [b])], []⟩ else ⟨[], [(slot, b)]⟩
  | bs => ⟨[(slot, bs)], []⟩

mutual
/-- A block as it is read from what is written of it. -/
def resaved : Block → Block
  | .mk type fields statements inputs =>
    let slots := resavedInputs inputs ++ resavedStatements statements
    .mk type fields slots.statements slots.inputs

def resavedInputs : List (String × Block) → Slots
  | [] => .empty
  | (slot, b) :: rest => ⟨[], [(slot, resaved b)]⟩ ++ resavedInputs rest

def resavedStatements : List (String × List Block) → Slots
  | [] => .empty
  | (slot, bs) :: rest => placed slot (resavedSequence bs) ++ resavedStatements rest

def resavedSequence : List Block → List Block
  | [] => []
  | b :: bs => resaved b :: resavedSequence bs
end

/-- Names that tell all slots apart, and input slots from those for sequences. -/
structure AreNeat (statements inputs : List String) : Prop where
  sequences : statements.Nodup
  singles : inputs.Nodup
  apart : ∀ s ∈ inputs, s ∉ statements
  fixed : ∀ s ∈ inputs, isStatementSlot s = false

section Entry

variable {n : Bool} {type : String} {fields slots tail : Members}

/-- The link to the next block, if there is one. -/
def IsLink (tail : Members) : Prop := ∀ m ∈ tail, m.1 = .text "next"

/-- The members of a block with its slots and its link to the next one. -/
def written (type : String) (fields slots tail : Members) : Members :=
  let fieldMembers : Members := if fields.isEmpty then [] else [("fields", .object fields)]
  let slotMembers : Members := if slots.isEmpty then [] else [("inputs", .object slots)]
  ("type", .text type) :: (fieldMembers ++ slotMembers ++ tail)

theorem hasKey_type : hasKey (written type fields slots tail) "type" = true := by
  simp [hasKey, written, Key.beq_text]

theorem hasKey_next : hasKey (written type fields slots tail) "next" = hasKey tail "next" := by
  unfold written hasKey
  cases fields <;> cases slots <;> simp [Key.beq_text]

theorem slotsOf_skip {k : Key} (hk : k ≠ .text "inputs") (v : Value) (ms : Members) :
    slotsOf n ((k, v) :: ms) = slotsOf n ms := by
  rw [slotsOf.eq_def]
  exact if_neg hk

theorem slotsOf_inputs (ms : Members) :
    slotsOf n (("inputs", .object slots) :: ms) = slotsFrom n slots := by
  unfold slotsOf
  rw [if_pos rfl]

theorem slotsOf_link (ht : IsLink tail) : slotsOf n tail = .ok .empty := by
  induction tail with
  | nil => rfl
  | cons m tail ih =>
    obtain ⟨k, v⟩ := m
    have hk : k = .text "next" := ht (k, v) (by simp)
    rw [slotsOf_skip (by simp [hk])]
    exact ih (fun m hm => ht m (by simp [hm]))

theorem slotsOf_written (ht : IsLink tail) :
    slotsOf n (written type fields slots tail) = slotsFrom n slots := by
  have hempty : slotsFrom n [] = .ok .empty := rfl
  unfold written
  rw [slotsOf_skip (by simp)]
  cases fields <;> cases slots <;>
    simp [slotsOf_skip, slotsOf_inputs, slotsOf_link ht, hempty]

theorem following_written :
    following n (written type fields slots tail) = following n tail := by
  unfold written
  cases fields <;> cases slots <;> simp [following]

theorem lookup_link {key : String} (ht : IsLink tail) (hk : key ≠ "next") :
    Json.lookup tail (Key.text key) = none := by
  unfold Json.lookup
  have hf : tail.find? (fun m => m.1 == Key.text key) = none := by
    rw [List.find?_eq_none]
    intro m hm
    rw [Key.beq_text, ht m hm]
    simpa using fun h => hk h.symm
  rw [hf]
  rfl

theorem assemble_written (ht : IsLink tail) (s : Slots) :
    assemble n (written type fields slots tail) s =
      .ok (.mk type fields s.statements s.inputs) := by
  have hl : Json.lookup tail (Key.text "fields") = none := lookup_link ht (by decide)
  have htype : Json.lookup (written type fields slots tail) (Key.text "type") =
      some (.text type) := by
    simp [Json.lookup, written, Key.beq_text]
  have hfields : ((Json.lookup (written type fields slots tail) (Key.text "fields")).getD
      .null).toMembers n = .ok fields := by
    cases fields with
    | nil =>
      have hnone : Json.lookup (written type [] slots tail) (Key.text "fields") = none := by
        unfold Json.lookup at hl ⊢
        cases slots <;> simpa [written, Key.beq_text] using hl
      rw [hnone]
      rfl
    | cons m ms =>
      simp [Json.lookup, written, Key.beq_text, Value.toMembers, Value.isFilled, Value.members]
  have hplain : (Value.text type).toPlain = .ok type := rfl
  unfold assemble
  rw [htype, Option.getD_some, hplain, ok_bind, hfields]
  rfl

theorem chain_written (ht : IsLink tail) {s : Slots} (hs : slotsFrom n slots = .ok s)
    {bs : List Block} (hb : following n tail = .ok bs) :
    chain n (.object (written type fields slots tail)) =
      .ok (.mk type fields s.statements s.inputs :: bs) := by
  rw [chain, if_pos hasKey_type, slotsOf_written ht, hs, ok_bind, assemble_written ht, ok_bind,
    following_written, hb, ok_bind]
  rfl

theorem single_written {s : Slots} (hs : slotsFrom n slots = .ok s) :
    single n (.object (written type fields slots [])) =
      .ok (.mk type fields s.statements s.inputs) := by
  have ht : IsLink [] := by simp [IsLink]
  rw [single, if_pos hasKey_type, slotsOf_written ht, hs, ok_bind, assemble_written ht]

/-- What is found in one slot. -/
def found (n : Bool) (slot : Key) (wrapper : Value) : Except Fault Slots :=
  match wrapper with
  | .object ws => slotContent n slot.plain ws
  | _ => .ok .empty

theorem slotsFrom_eq (m : Key × Value) (rest : Members) :
    slotsFrom n (m :: rest) = (do
      let s ← found n m.1 m.2
      let t ← slotsFrom n rest
      return s ++ t) := by
  obtain ⟨slot, wrapper⟩ := m
  cases wrapper <;> rfl

theorem slotsFrom_append {xs ys : Members} {s t : Slots} (hx : slotsFrom n xs = .ok s)
    (hy : slotsFrom n ys = .ok t) : slotsFrom n (xs ++ ys) = .ok (s ++ t) := by
  induction xs generalizing s with
  | nil =>
    cases hx
    exact hy
  | cons x xs ih =>
    rw [slotsFrom_eq] at hx
    obtain ⟨found, hf, hx⟩ := bind_eq_ok hx
    obtain ⟨rest, hr, hx⟩ := bind_eq_ok hx
    cases hx
    rw [List.cons_append, slotsFrom_eq, hf, ok_bind, ih hr, ok_bind, Slots.append_assoc]
    rfl

/-- A slot that is read is followed by those that are read after it. -/
theorem slotsFrom_cons {slot : String} {ws : Members} {rest : Members} {s t : Slots}
    (hs : slotContent n slot ws = .ok s) (ht : slotsFrom n rest = .ok t) :
    slotsFrom n ((Key.text slot, .object ws) :: rest) = .ok (s ++ t) := by
  have hf : found n slot (.object ws) = .ok s := hs
  rw [slotsFrom_eq, hf, ok_bind, ht, ok_bind]
  rfl

theorem slotContent_single {slot : String} (hs : isStatementSlot slot = false) {inner : Members}
    (hn : hasKey inner "next" = false) {b : Block} (hb : single n (.object inner) = .ok b) :
    slotContent n slot [("block", .object inner)] = .ok ⟨[], [(slot, b)]⟩ := by
  unfold slotContent
  rw [if_pos rfl]
  dsimp only
  rw [if_neg (by simp [hs, hn]), hb]
  rfl

theorem slotContent_chain {slot : String} {inner : Members}
    (hn : hasKey inner "next" = true ∨ isStatementSlot slot = true) {bs : List Block}
    (hb : chain n (.object inner) = .ok bs) :
    slotContent n slot [("block", .object inner)] = .ok ⟨[(slot, bs)], []⟩ := by
  unfold slotContent
  rw [if_pos rfl]
  dsimp only
  rw [if_pos (by simpa using hn), hb]
  rfl

theorem following_next (head : Value) :
    following n [("next", wrapped head)] = chain n head := by
  simp [following, wrapped, linked]

end Entry

section Resave

variable {n : Bool}

/-- The members of an entry, with or without a link to the next block. -/
theorem entry_eq {type : String} {fields : Members} {statements : List (String × List Block)}
    {inputs : List (String × Block)} (h : AreNeat (statements.map (·.1)) (inputs.map (·.1)))
    (tail : Members) : entry (.mk type fields statements inputs) ++ tail =
      written type fields (inputMembers inputs ++ statementMembers statements) tail := by
  have hslots : slotEntries (inputEntries [] inputs) statements =
      inputMembers inputs ++ statementMembers statements := by
    rw [inputEntries_eq h.singles (by simp [AreNew]), List.nil_append]
    refine slotEntries_eq h.sequences ?_
    intro m hm s hs he
    obtain ⟨r, hr, rfl⟩ := List.mem_map.mp hm
    cases he
    exact h.apart r.1 (List.mem_map_of_mem hr) hs
  unfold entry written
  simp [hslots]

theorem hasKey_entry {b : Block} (h : b.Everywhere AreNeat) :
    hasKey (entry b) "next" = false := by
  obtain ⟨type, fields, statements, inputs⟩ := b
  rw [← List.append_nil (entry _), entry_eq h.1, hasKey_next]
  rfl

theorem chainEntry_last (b : Block) : chainEntry [b] = some (.object (entry b)) := by
  simp [chainEntry]

theorem chainEntry_more (b c : Block) (bs : List Block) :
    ∃ head, chainEntry (c :: bs) = some head ∧ chainEntry (b :: c :: bs) =
      some (.object (entry b ++ [(.text "next", wrapped head)])) := by
  cases h : chainEntry bs <;> simp [chainEntry, h]

theorem statementMembers_none {slot : String} {bs : List Block} (h : chainEntry bs = none)
    (rest : List (String × List Block)) :
    statementMembers ((slot, bs) :: rest) = statementMembers rest := by
  simp [statementMembers, h]

theorem statementMembers_some {slot : String} {bs : List Block} {head : Value}
    (h : chainEntry bs = some head) (rest : List (String × List Block)) :
    statementMembers ((slot, bs) :: rest) =
      (.text slot, wrapped head) :: statementMembers rest := by
  simp [statementMembers, h]

theorem isLink_next (v : Value) : IsLink [("next", v)] := by
  simp [IsLink]

mutual
/-- A block on its own is read as it is to be. -/
theorem single_entry {b : Block} (h : b.Everywhere AreNeat) :
    single n (.object (entry b)) = .ok (resaved b) := by
  match b with
  | .mk type fields statements inputs =>
    obtain ⟨hneat, hs, hi⟩ := h
    have hslots := slotsFrom_append (slotsFrom_inputs hi hneat.fixed)
      (slotsFrom_statements hs)
    rw [← List.append_nil (entry _), entry_eq hneat, single_written hslots]
    rfl

theorem slotsFrom_inputs {inputs : List (String × Block)}
    (h : Block.EverywhereUnder AreNeat inputs)
    (hf : ∀ s ∈ inputs.map (·.1), isStatementSlot s = false) :
    slotsFrom n (inputMembers inputs) = .ok (resavedInputs inputs) := by
  match inputs with
  | [] => rfl
  | (slot, b) :: rest =>
    obtain ⟨hb, hrest⟩ := h
    have hslot := hf slot (by simp)
    have hmore := slotsFrom_inputs hrest (fun s hs => hf s (by simp [hs]))
    exact slotsFrom_cons (slotContent_single hslot (hasKey_entry hb) (single_entry hb)) hmore

theorem slotsFrom_statements {statements : List (String × List Block)}
    (h : Block.EverywhereIn AreNeat statements) :
    slotsFrom n (statementMembers statements) = .ok (resavedStatements statements) := by
  match statements with
  | [] => rfl
  | (slot, bs) :: rest =>
    obtain ⟨hb, hrest⟩ := h
    have hmore := slotsFrom_statements hrest
    have hchain := chain_entry hb
    match bs with
    | [] =>
      rw [statementMembers_none rfl, hmore]
      rfl
    | [b] =>
      rw [statementMembers_some (chainEntry_last b)]
      refine slotsFrom_cons ?_ hmore
      cases hslot : isStatementSlot slot with
      | true =>
        rw [slotContent_chain (.inr hslot) (hchain _ (chainEntry_last b))]
        simp [resavedSequence, placed, hslot]
      | false =>
        rw [slotContent_single hslot (hasKey_entry hb.1) (single_entry hb.1)]
        simp [resavedSequence, placed, hslot]
    | b :: c :: cs =>
      obtain ⟨head, _, hc⟩ := chainEntry_more b c cs
      rw [statementMembers_some hc]
      have hn : hasKey (entry b ++ [(.text "next", wrapped head)]) "next" = true := by
        simp [hasKey, Key.beq_text]
      exact slotsFrom_cons (slotContent_chain (.inl hn) (hchain _ hc)) hmore

theorem chain_entry {bs : List Block} (h : Block.EverywhereAmong AreNeat bs) :
    ∀ head ∈ chainEntry bs, chain n head = .ok (resavedSequence bs) := by
  match bs with
  | [] => simp [chainEntry]
  | .mk type fields statements inputs :: bs =>
    obtain ⟨⟨hneat, hs, hi⟩, hrest⟩ := h
    have hslots := slotsFrom_append (slotsFrom_inputs hi hneat.fixed)
      (slotsFrom_statements hs)
    have hmore := chain_entry hrest
    match bs with
    | [] =>
      intro head hh
      rw [chainEntry_last] at hh
      cases hh
      rw [← List.append_nil (entry _), entry_eq hneat, chain_written (by simp [IsLink]) hslots rfl]
      rfl
    | c :: cs =>
      intro head hh
      obtain ⟨next, hn, hc⟩ := chainEntry_more (.mk type fields statements inputs) c cs
      rw [hc] at hh
      cases hh
      rw [entry_eq hneat, chain_written (isLink_next _) hslots ((following_next _).trans (hmore next hn))]
      rfl
end

theorem entries_toDocument (p : Program) : entries? (toDocument p) = some (chainEntry p).toList := by
  simp [entries?, toDocument, Json.lookup, Key.beq_text]

/-- A program that is written and read again. -/
theorem ofDocument_toDocument {p : Program} (h : Block.EverywhereAmong AreNeat p) :
    ofDocument n (toDocument p) = .ok (resavedSequence p) := by
  have hread := chain_entry (n := n) h
  unfold ofDocument
  rw [entries_toDocument]
  cases hc : chainEntry p with
  | none =>
    have hp : p = [] := by
      cases p with
      | nil => rfl
      | cons b bs =>
        unfold chainEntry at hc
        split at hc <;> cases hc
    rw [hp]
    rfl
  | some head =>
    have hm : [head].mapM (chain n) = .ok [resavedSequence p] := by
      rw [List.mapM_cons, hread head hc]
      rfl
    dsimp only [Option.toList]
    rw [hm, ok_bind]
    simp
    rfl

end Resave

end Courier.Program
