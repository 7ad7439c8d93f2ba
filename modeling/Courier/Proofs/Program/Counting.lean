import Courier.Program.Compiler
import Courier.Proofs.Instruction.Spelling
import Courier.Proofs.Program.Meaning

namespace Courier.Program

open Compiler

/-- The blocks with a count: type, field and what they ask for. -/
def countedBlocks : List (String × String × (Nat → Command)) :=
  [("move_forward", "CELLS", .moveForward), ("move_backward", "CELLS", .moveBackward),
   ("wait", "SECONDS", .wait)]

section Counted

variable {type field : String} {command : Nat → Command} {fields : Json.Members} {i : Int}

theorem mem_counted (hb : (type, field, command) ∈ countedBlocks) : command ∈ Command.counted := by
  simp only [countedBlocks, List.mem_cons, Prod.mk.injEq, List.not_mem_nil, or_false] at hb
  rcases hb with ⟨_, _, rfl⟩ | ⟨_, _, rfl⟩ | ⟨_, _, rfl⟩ <;> simp [Command.counted]

/-- The rule of a counted block shows its field after the word of its command. -/
theorem lookup_counted (hb : (type, field, command) ∈ countedBlocks) :
    Json.lookup standard.statements type = some (.counted (command 0).opcode.text field) := by
  simp only [countedBlocks, List.mem_cons, Prod.mk.injEq, List.not_mem_nil, or_false] at hb
  rcases hb with ⟨rfl, rfl, rfl⟩ | ⟨rfl, rfl, rfl⟩ | ⟨rfl, rfl, rfl⟩ <;> rfl

theorem block_counted {c : Compiler} {keyword text : String}
    (hr : Json.lookup c.statements type = some (.counted keyword field))
    (ht : literal ((Json.lookup fields field).getD (.int 1)) = .ok text)
    (statements : List (String × List Block)) (inputs : List (String × Block)) :
    c.block (.mk type fields statements inputs) = .ok [keyword ++ " " ++ text] := by
  rw [Compiler.block, hr]
  dsimp only
  rw [ht]
  rfl

theorem compile_single {c : Compiler} {b : Block} {line : String} (hb : c.block b = .ok [line])
    (hc : c.exceeds 1 = false) : c.compile [b] = .ok [line] := by
  have hs : c.sequence [b] = .ok [line] := by
    rw [Compiler.sequence, hb]
    rfl
  have hlen : ¬c.exceeds [line].length := by
    rw [List.length_singleton, hc]
    decide
  rw [Compiler.compile, hs, ok_bind, if_neg hlen]
  rfl

/-- The line of a counted block, whose count has so many digits, reads back. -/
theorem count_reads_back (hb : (type, field, command) ∈ countedBlocks)
    (hi : countOf? fields field = some i)
    (hd : (Nat.toDigits 10 i.natAbs).length ≤ Number.maxDigits)
    (statements : List (String × List Block)) (inputs : List (String × Block)) :
    ∃ line, standard.compile [.mk type fields statements inputs] = .ok [line] ∧
      line = (command 0).opcode.text ++ " " ++ toString i ∧
      (0 < i → Instruction.parse line = .ok ⟨line, command i.toNat⟩) ∧
      (i ≤ 0 → Instruction.parse line =
        .error (.instruction (.countNotPositive (command 0).opcode i line))) := by
  have ht : literal ((Json.lookup fields field).getD (.int 1)) = .ok (toString i) :=
    (literal_countOf hi).trans (integerText_short hd)
  have hline := block_counted (lookup_counted hb) ht statements inputs
  have hparse := Instruction.parse_numeral (mem_counted hb) hd
  refine ⟨_, compile_single hline rfl, rfl, ?_, ?_⟩
  · intro hpos
    rw [hparse, if_pos hpos]
  · intro hneg
    rw [hparse, if_neg (by omega)]

end Counted

/-- A wait of `10^22` units given as a binary64 number, and a step of minus two cells. -/
theorem count_reads_back_far :
    countOf? [("SECONDS", .float (Binary64.ofInt (10^22)))] "SECONDS" = some (10^22) ∧
      countOf? [("CELLS", .int (-2))] "CELLS" = some (-2) ∧
      (∃ line, standard.compile
          [.mk "wait" [("SECONDS", .float (Binary64.ofInt (10^22)))] [] []] = .ok [line] ∧
        Instruction.parse line = .ok ⟨line, .wait (10^22)⟩) ∧
      ∃ line, standard.compile [.mk "move_forward" [("CELLS", .int (-2))] [] []] = .ok [line] ∧
        Instruction.parse line =
          .error (.instruction (.countNotPositive .moveForward (-2) line)) := by
  have hfar : countOf? [("SECONDS", .float (Binary64.ofInt (10^22)))] "SECONDS" = some (10^22) := by
    decide +kernel
  have hback : countOf? [("CELLS", .int (-2))] "CELLS" = some (-2) := rfl
  have hwait : ("wait", "SECONDS", Command.wait) ∈ countedBlocks := by simp [countedBlocks]
  have hstep : ("move_forward", "CELLS", Command.moveForward) ∈ countedBlocks := by
    simp [countedBlocks]
  obtain ⟨line, hc, _, hp, _⟩ := count_reads_back hwait hfar (by decide +kernel) [] []
  obtain ⟨line', hc', _, _, hp'⟩ := count_reads_back hstep hback (by decide) [] []
  exact ⟨hfar, hback, ⟨line, hc, hp (by decide)⟩, line', hc', hp' (by decide)⟩

end Courier.Program
