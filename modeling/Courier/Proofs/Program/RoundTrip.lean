import Courier.Proofs.Program.Resaving

namespace Courier.Program

mutual
/-- A block without the empty statement slots in it. -/
def pruned : Block → Block
  | .mk type fields statements inputs =>
    .mk type fields (prunedStatements statements) (prunedInputs inputs)

def prunedStatements : List (String × List Block) → List (String × List Block)
  | [] => []
  | (slot, bs) :: rest =>
    if bs.isEmpty then prunedStatements rest
    else (slot, prunedSequence bs) :: prunedStatements rest

def prunedInputs : List (String × Block) → List (String × Block)
  | [] => []
  | (slot, b) :: rest => (slot, pruned b) :: prunedInputs rest

def prunedSequence : List Block → List Block
  | [] => []
  | b :: bs => pruned b :: prunedSequence bs
end

/-- Distinct names, `DO` and `ELSE` for sequences and all others for single blocks. -/
structure AreSorted (statements inputs : List String) : Prop where
  sequences : statements.Nodup
  singles : inputs.Nodup
  body : ∀ s ∈ statements, s = "DO" ∨ s = "ELSE"
  value : ∀ s ∈ inputs, s ≠ "DO" ∧ s ≠ "ELSE"

theorem isStatementSlot_iff {s : String} : isStatementSlot s = true ↔ s = "DO" ∨ s = "ELSE" := by
  simp [isStatementSlot]

theorem AreSorted.neat {statements inputs : List String} (h : AreSorted statements inputs) :
    AreNeat statements inputs where
  sequences := h.sequences
  singles := h.singles
  apart s hi hs := by
    obtain ⟨hdo, helse⟩ := h.value s hi
    rcases h.body s hs with he | he
    · exact hdo he
    · exact helse he
  fixed s hi := by
    obtain ⟨hdo, helse⟩ := h.value s hi
    simp [isStatementSlot, hdo, helse]

theorem placed_sequence {slot : String} (hs : isStatementSlot slot = true) (b : Block)
    (bs : List Block) : placed slot (b :: bs) = ⟨[(slot, b :: bs)], []⟩ := by
  cases bs <;> simp [placed, hs]

mutual
theorem resaved_sorted {b : Block} (h : b.Everywhere AreSorted) : resaved b = pruned b := by
  match b with
  | .mk type fields statements inputs =>
    obtain ⟨hn, hs, hi⟩ := h
    rw [resaved, pruned, resavedInputs_sorted hi, resavedStatements_sorted hs hn.body]
    simp

theorem resavedInputs_sorted {inputs : List (String × Block)}
    (h : Block.EverywhereUnder AreSorted inputs) :
    resavedInputs inputs = ⟨[], prunedInputs inputs⟩ := by
  match inputs with
  | [] => rfl
  | (slot, b) :: rest =>
    rw [resavedInputs, prunedInputs, resaved_sorted h.1, resavedInputs_sorted h.2]
    rfl

theorem resavedStatements_sorted {statements : List (String × List Block)}
    (h : Block.EverywhereIn AreSorted statements)
    (hs : ∀ s ∈ statements.map (·.1), s = "DO" ∨ s = "ELSE") :
    resavedStatements statements = ⟨prunedStatements statements, []⟩ := by
  match statements with
  | [] => rfl
  | (slot, bs) :: rest =>
    have hslot := isStatementSlot_iff.mpr (hs slot (by simp))
    have hrest := resavedStatements_sorted h.2 (fun s hm => hs s (by simp [hm]))
    have hbs := resavedSequence_sorted h.1
    rw [resavedStatements, prunedStatements, hrest, hbs]
    cases bs with
    | nil => rfl
    | cons b bs =>
      rw [prunedSequence, placed_sequence hslot]
      rfl

theorem resavedSequence_sorted {bs : List Block} (h : Block.EverywhereAmong AreSorted bs) :
    resavedSequence bs = prunedSequence bs := by
  match bs with
  | [] => rfl
  | b :: bs => rw [resavedSequence, prunedSequence, resaved_sorted h.1, resavedSequence_sorted h.2]
end

/-- Only empty statement slots are lost when a program is written and read again. -/
theorem written_reads_back {p : Program} (h : Block.EverywhereAmong AreSorted p) (nanEqual : Bool) :
    ofDocument nanEqual (toDocument p) = .ok (prunedSequence p) := by
  have hneat := Block.EverywhereAmong.mono (fun _ _ hs => AreSorted.neat hs) h
  rw [ofDocument_toDocument hneat, resavedSequence_sorted h]

/-- A loop around a branch without a body. -/
def hollow : Program :=
  [.mk "repeat_n_times" [("TIMES", .int 2)]
    [("DO", [.mk "if_then" [] [("DO", []), ("ELSE", [.mk "pickup" [] [] []])]
        [("CONDITION", .mk "is_wall_ahead" [] [] [])],
      .mk "turn_left" [] [] []])] []]

theorem hollow_isSorted : Block.EverywhereAmong AreSorted hollow := by
  have hnone : AreSorted [] [] := ⟨by simp, by simp, by simp, by simp⟩
  have hbody : AreSorted ["DO"] [] := ⟨by simp, by simp, by simp, by simp⟩
  have hbranch : AreSorted ["DO", "ELSE"] ["CONDITION"] := ⟨by simp, by simp, by simp, by simp⟩
  simp [hollow, Block.EverywhereAmong, Block.Everywhere, Block.EverywhereIn,
    Block.EverywhereUnder, hnone, hbody, hbranch]

theorem written_reads_back_hollow :
    Block.EverywhereAmong AreSorted hollow ∧ ofDocument true (toDocument hollow) = .ok
      [.mk "repeat_n_times" [("TIMES", .int 2)]
        [("DO", [.mk "if_then" [] [("ELSE", [.mk "pickup" [] [] []])]
            [("CONDITION", .mk "is_wall_ahead" [] [] [])],
          .mk "turn_left" [] [] []])] []] :=
  ⟨hollow_isSorted, written_reads_back hollow_isSorted true⟩

end Courier.Program
