import Courier.Proofs.Program.Recompiling

namespace Courier.Program

namespace Compiler

/-- Whether a statement block has a rule. -/
def knows (c : Compiler) (b : Block) : Bool :=
  (Json.lookup c.statements b.type).isSome

/-- Whether the condition slot holds a block without a rule. -/
def hasUnknownCondition (c : Compiler) (inputs : List (String × Block)) : Bool :=
  (Json.lookup inputs "CONDITION").any (fun b => (Json.lookup c.values b.type).isNone)

mutual
/-- A block without the unknown blocks inside it. -/
def cleared (c : Compiler) : Block → Block
  | .mk type fields statements inputs =>
    .mk type fields (clearedSlots c statements) (clearedInputs c (c.hasUnknownCondition inputs) inputs)

/-- Only the slot `DO` is a body; the blocks of other slots stay. -/
def clearedSlots (c : Compiler) : List (String × List Block) → List (String × List Block)
  | [] => []
  | (slot, bs) :: rest => (slot, clearedBlocks c (slot = "DO") bs) :: clearedSlots c rest

def clearedBlocks (c : Compiler) (inBody : Bool) : List Block → List Block
  | [] => []
  | b :: bs =>
    if inBody && !c.knows b then clearedBlocks c inBody bs
    else cleared c b :: clearedBlocks c inBody bs

def clearedInputs (c : Compiler) (empties : Bool) : List (String × Block) → List (String × Block)
  | [] => []
  | (slot, b) :: rest =>
    if empties && slot = "CONDITION" then clearedInputs c empties rest
    else (slot, cleared c b) :: clearedInputs c empties rest
end

/-- A program without its unknown blocks. -/
def clear (c : Compiler) (p : Program) : Program := c.clearedBlocks true p

/-- An unknown block goes with the invalid loop inside it. -/
example : standard.clear
    [.repeatTimes (.int 2)
      [.mk "teleport" [] [("DO", [.repeatTimes (.int (-1)) []])] [], .mk "pickup" [] [] []],
      .ifThen (some (.mk "is_raining" [] [] [])) []] =
    [.repeatTimes (.int 2) [.mk "pickup" [] [] []], .ifThen none []] := rfl

end Compiler

variable {c : Compiler}

theorem type_cleared (b : Block) : (c.cleared b).type = b.type := by
  cases b
  rw [Compiler.cleared]
  rfl

section Inputs

variable (inputs : List (String × Block))

theorem lookup_clearedInputs (empties : Bool) :
    Json.lookup (c.clearedInputs empties inputs) "CONDITION" =
      if empties then none else (Json.lookup inputs "CONDITION").map c.cleared := by
  induction inputs with
  | nil => cases empties <;> rfl
  | cons r rest ih =>
    obtain ⟨slot, b⟩ := r
    rw [Compiler.clearedInputs]
    by_cases hslot : slot = "CONDITION"
    · cases empties with
      | true => simpa [hslot] using ih
      | false => simp [hslot, Json.lookup]
    · rw [if_neg (by simp [hslot]), Json.lookup_cons, Json.lookup_cons, if_neg hslot, if_neg hslot]
      exact ih

/-- A condition that is unknown is false, as is an empty slot. -/
theorem condition_cleared :
    c.condition (c.clearedInputs (c.hasUnknownCondition inputs) inputs) = c.condition inputs := by
  have hl := lookup_clearedInputs (c := c) inputs (c.hasUnknownCondition inputs)
  cases hi : Json.lookup inputs "CONDITION" with
  | none =>
    refine condition_congr ?_
    rw [hl, hi]
    simp
  | some b =>
    cases hv : Json.lookup c.values b.type with
    | none =>
      have hu : c.hasUnknownCondition inputs = true := by
        simp [Compiler.hasUnknownCondition, hi, hv]
      rw [hu, if_pos rfl] at hl
      simp only [Compiler.condition, hu, hl, hi, hv]
    | some text =>
      have hu : c.hasUnknownCondition inputs = false := by
        simp [Compiler.hasUnknownCondition, hi, hv]
      refine condition_congr ?_
      rw [hl, hu, hi]
      simp [type_cleared]

/-- No condition is left that has no rule. -/
theorem conditionNotices_cleared :
    c.conditionNotices (c.clearedInputs (c.hasUnknownCondition inputs) inputs) = [] := by
  have hl := lookup_clearedInputs (c := c) inputs (c.hasUnknownCondition inputs)
  unfold Compiler.conditionNotices
  rw [hl]
  cases hi : Json.lookup inputs "CONDITION" with
  | none => simp
  | some b => cases hv : Json.lookup c.values b.type <;>
      simp [Compiler.hasUnknownCondition, hi, hv, type_cleared]

end Inputs

theorem block_unknown {b : Block} (h : c.knows b = false) : c.block b = .ok [] := by
  cases b with
  | mk type fields statements inputs =>
    have hl : Json.lookup c.statements type = none := by
      simpa [Compiler.knows, Block.type] using h
    rw [Compiler.block, hl]

/-- An unknown block in front gives no lines and stops nothing. -/
theorem sequence_unknown {b : Block} (h : c.knows b = false) (bs : List Block) :
    c.sequence (b :: bs) = c.sequence bs := by
  rw [Compiler.sequence, block_unknown h, ok_bind]
  cases c.sequence bs <;> rfl

mutual
theorem block_cleared (b : Block) : c.block (c.cleared b) = c.block b := by
  match b with
  | .mk type fields statements inputs =>
    rw [Compiler.cleared, Compiler.block, Compiler.block]
    cases Json.lookup c.statements type with
    | none => rfl
    | some r =>
      cases r with
      | loop =>
        dsimp only
        rw [body_cleared statements]
        rfl
      | branch =>
        dsimp only
        rw [body_cleared statements, condition_cleared]
      | bare keyword => rfl
      | counted keyword field => rfl
      | constant lines => rfl

theorem body_cleared (statements : List (String × List Block)) :
    c.body (c.clearedSlots statements) = c.body statements := by
  match statements with
  | [] => rw [Compiler.clearedSlots]
  | (slot, bs) :: rest =>
    rw [Compiler.clearedSlots, Compiler.body, Compiler.body]
    by_cases hdo : slot = "DO"
    · rw [if_pos hdo, if_pos hdo, decide_eq_true hdo]
      exact sequence_cleared bs
    · rw [if_neg hdo, if_neg hdo]
      exact body_cleared rest

theorem sequence_cleared (bs : List Block) :
    c.sequence (c.clearedBlocks true bs) = c.sequence bs := by
  match bs with
  | [] => rw [Compiler.clearedBlocks]
  | b :: bs =>
    rw [Compiler.clearedBlocks]
    cases hk : c.knows b with
    | true =>
      rw [if_neg (by simp), Compiler.sequence, Compiler.sequence, block_cleared b,
        sequence_cleared bs]
    | false =>
      rw [if_pos (by simp), sequence_unknown hk]
      exact sequence_cleared bs
end

mutual
theorem blockNotices_cleared {b : Block} (h : c.knows b = true) :
    c.blockNotices (c.cleared b) = [] := by
  match b with
  | .mk type fields statements inputs =>
    have hl : (Json.lookup c.statements type).isSome := h
    rw [Compiler.cleared, Compiler.blockNotices]
    cases hr : Json.lookup c.statements type with
    | none =>
      rw [hr] at hl
      cases hl
    | some r =>
      cases r with
      | loop =>
        dsimp only
        rw [bodyNotices_cleared statements]
        exact ite_self []
      | branch =>
        dsimp only
        rw [bodyNotices_cleared statements, conditionNotices_cleared]
        rfl
      | bare keyword => rfl
      | counted keyword field => rfl
      | constant lines => rfl

theorem bodyNotices_cleared (statements : List (String × List Block)) :
    c.bodyNotices (c.clearedSlots statements) = [] := by
  match statements with
  | [] => rw [Compiler.clearedSlots, Compiler.bodyNotices]
  | (slot, bs) :: rest =>
    rw [Compiler.clearedSlots, Compiler.bodyNotices]
    by_cases hdo : slot = "DO"
    · rw [if_pos hdo, decide_eq_true hdo]
      exact notices_cleared bs
    · rw [if_neg hdo]
      exact bodyNotices_cleared rest

theorem notices_cleared (bs : List Block) : c.notices (c.clearedBlocks true bs) = [] := by
  match bs with
  | [] => rw [Compiler.clearedBlocks, Compiler.notices]
  | b :: bs =>
    rw [Compiler.clearedBlocks]
    cases hk : c.knows b with
    | true =>
      rw [if_neg (by simp), Compiler.notices, blockNotices_cleared hk, notices_cleared bs]
      exact ite_self []
    | false =>
      rw [if_pos (by simp)]
      exact notices_cleared bs
end

/-- Unknown blocks are inert: without them a program comes to the same lines or the same fault, and
the compiler remarks on nothing. -/
theorem unknown_inert (c : Compiler) (p : Program) :
    c.compile (c.clear p) = c.compile p ∧ c.notices (c.clear p) = [] := by
  refine ⟨?_, notices_cleared p⟩
  unfold Compiler.compile Compiler.clear
  rw [sequence_cleared]

end Courier.Program
