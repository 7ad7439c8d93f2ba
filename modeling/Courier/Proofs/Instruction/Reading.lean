import Mathlib.Logic.Basic
import Courier.Proofs.Instruction.Form

namespace Courier

/-- The faults of lines that cannot be read. -/
def Fault.IsUnread : Fault → Prop
  | .opcode _ => True
  | .number _ => True
  | .instruction (.countNotPositive ..) => True
  | .instruction (.unknown _) => True
  | _ => False

/-- Reading comes to a value or to such a fault. -/
def Reads {α : Type} (IsValue : α → Prop) (r : Except Fault α) : Prop :=
  (∃ a, r = .ok a ∧ IsValue a) ∨ ∃ f, r = .error f ∧ f.IsUnread

theorem Reads.of_ok {α : Type} {IsValue : α → Prop} {a : α} (h : Reads IsValue (.ok a)) :
    IsValue a := by
  rcases h with ⟨b, hb, hv⟩ | ⟨f, hf, _⟩
  · cases hb
    exact hv
  · cases hf

theorem Reads.of_error {α : Type} {IsValue : α → Prop} {f : Fault}
    (h : Reads IsValue (.error f)) : f.IsUnread := by
  rcases h with ⟨a, ha, _⟩ | ⟨g, hg, hf⟩
  · cases ha
  · cases hg
    exact hf

namespace Instruction

open Text

variable {text line : String}

theorem checkWord_cases (word : String) (matched : List Char) :
    checkWord word matched = .ok () ∨ ∃ f, checkWord word matched = .error f ∧ f.IsUnread := by
  unfold checkWord
  dsimp only
  split
  · exact .inl rfl
  · exact .inr ⟨_, rfl, trivial⟩

theorem readCount_cases (opcode : Opcode) (text : String) (negative : Bool) (ds : List Nat) :
    Reads (fun _ => True) (readCount opcode text negative ds) := by
  unfold readCount
  split
  · exact .inr ⟨_, rfl, trivial⟩
  · dsimp only
    split
    · exact .inr ⟨_, rfl, trivial⟩
    · exact .inl ⟨_, rfl, trivial⟩

theorem ofCounted_cases (text : String) (command : Nat → Command) (word : List Char)
    (negative : Bool) (ds : List Nat) :
    Reads (fun c => ∃ n, c = command n) (ofCounted text command word negative ds) := by
  unfold ofCounted
  rcases checkWord_cases (command 0).opcode.text word with hw | ⟨f, hw, hf⟩
  · rw [hw, ok_bind]
    rcases readCount_cases (command 0).opcode text negative ds with ⟨n, hn, _⟩ | ⟨f, hn, hf⟩
    · rw [hn]
      exact .inl ⟨_, rfl, n, rfl⟩
    · rw [hn]
      exact .inr ⟨f, rfl, hf⟩
  · rw [hw]
    exact .inr ⟨f, rfl, hf⟩

theorem ofBare_cases (command : Command) (word : List Char) :
    Reads (fun c => c = command) (ofBare command word) := by
  unfold ofBare
  rcases checkWord_cases command.opcode.text word with hw | ⟨f, hw, hf⟩
  · rw [hw]
    exact .inl ⟨_, rfl, rfl⟩
  · rw [hw]
    exact .inr ⟨f, rfl, hf⟩

/-- What a text comes to by its form. -/
theorem readCommand_cases (text : String) :
    (∃ command ∈ Command.counted, Reads (fun c => ∃ n, c = command n) (readCommand text)) ∨
      (∃ command ∈ Command.bare,
        Begins command.opcode text ∧ Reads (fun c => c = command) (readCommand text)) ∨
      (Begins .branch text ∧ ∃ name, readCommand text = .ok (.branch (upper name))) ∨
      readCommand text = .error (.instruction (.unknown text)) := by
  rcases readCommand_forms text with ⟨command, hc, word, negative, ds, _, hr⟩ |
    ⟨command, hc, hw, hr⟩ | hbranch | hunknown
  · exact .inl ⟨command, hc, hr ▸ ofCounted_cases text command word negative ds⟩
  · exact .inr (.inl ⟨command, hc, hw.begins, hr ▸ ofBare_cases command text.toList⟩)
  · obtain ⟨name, hform, hr⟩ := hbranch
    exact .inr (.inr (.inl ⟨hform.begins, _, hr⟩))
  · exact .inr (.inr (.inr hunknown))

/-- Reading fails only for what the text says. -/
theorem readCommand_error {f : Fault} (h : readCommand text = .error f) : f.IsUnread := by
  have hcases := readCommand_cases text
  rw [h] at hcases
  rcases hcases with ⟨_, _, hr⟩ | ⟨_, _, _, hr⟩ | ⟨_, c, hc⟩ | hu
  · exact hr.of_error
  · exact hr.of_error
  · cases hc
  · cases hu
    trivial

theorem readCommand_branch {name : String} (h : readCommand text = .ok (.branch name)) :
    ∃ given, name = upper given := by
  have hcases := readCommand_cases text
  rw [h] at hcases
  rcases hcases with ⟨command, hmem, hr⟩ | ⟨command, hmem, _, hr⟩ | ⟨_, given, hc⟩ | hu
  · obtain ⟨n, hn⟩ := hr.of_ok
    simp only [Command.counted, List.mem_cons, List.not_mem_nil, or_false] at hmem
    rcases hmem with rfl | rfl | rfl <;> cases hn
  · obtain rfl := hr.of_ok
    simp only [Command.bare, List.mem_cons, List.not_mem_nil, or_false, reduceCtorEq] at hmem
  · cases hc
    exact ⟨given, rfl⟩
  · cases hu

theorem parse_error {f : Fault} (h : parse line = .error f) : f.IsUnread := by
  rcases bind_eq_error h with h | ⟨c, _, h⟩
  · exact readCommand_error h
  · cases h

theorem parse_ne_cancelled (line reason : String) : parse line ≠ .error (.cancelled reason) :=
  fun h => parse_error h

theorem Begins.head {o : Opcode} {l : Char} {letters : List Char} (h : Begins o text)
    (ho : o.text.toList = l :: letters) : ∃ c ∈ text.toList.head?, sameLetter l c := by
  obtain ⟨word, rest, hw, ht⟩ := h
  unfold Spells at hw
  rw [ho] at hw
  cases word with
  | nil => cases hw
  | cons c word =>
    obtain ⟨hc, _⟩ := List.cons.inj hw
    rw [ht]
    exact ⟨c, rfl, by simp [sameLetter, hc]⟩

/-- A text that opens or closes a branch begins as one of the two words does. -/
theorem readCommand_control {c : Command} (h : readCommand text = .ok c)
    (hc : c.opcode.isControl = true) :
    ∃ a ∈ text.toList.head?, sameLetter 'I' a ∨ sameLetter 'E' a := by
  have hcases := readCommand_cases text
  rw [h] at hcases
  rcases hcases with ⟨command, hmem, hr⟩ | ⟨command, hmem, hbegins, hr⟩ | ⟨hbegins, _⟩ | hu
  · obtain ⟨n, rfl⟩ := hr.of_ok
    simp only [Command.counted, List.mem_cons, List.not_mem_nil, or_false] at hmem
    rcases hmem with rfl | rfl | rfl <;> cases hc
  · obtain rfl := hr.of_ok
    simp only [Command.bare, List.mem_cons, List.not_mem_nil, or_false] at hmem
    rcases hmem with rfl | rfl | rfl | rfl | rfl
    · cases hc
    · cases hc
    · cases hc
    · cases hc
    · obtain ⟨a, ha, hl⟩ := hbegins.head rfl
      exact ⟨a, ha, .inr hl⟩
  · obtain ⟨a, ha, hl⟩ := hbegins.head rfl
    exact ⟨a, ha, .inl hl⟩
  · cases hu

/-- Nothing in front of the first character that is not blank counts. -/
theorem strip_head {c : Char} {cs : List Char} (hl : line.toList = c :: cs)
    (hc : isBlank c = false) : (strip line).toList.head? = some c := by
  unfold strip trim
  rw [String.toList_ofList, hl, List.dropWhile_cons_of_neg (by simp [hc]), List.reverse_cons,
    List.dropWhile_append]
  split
  · simp [hc]
  · simp

/-- A line that begins with another letter neither opens nor closes a branch. -/
theorem parse_body {i : Instruction} (h : parse line = .ok i) {c : Char} {cs : List Char}
    (hl : line.toList = c :: cs) (hc : isBlank c = false) (hi : sameLetter 'I' c = false)
    (he : sameLetter 'E' c = false) : i.command.opcode.isControl = false := by
  obtain ⟨command, hr, h⟩ := bind_eq_ok h
  cases h
  cases hcontrol : command.opcode.isControl with
  | false => rfl
  | true =>
    obtain ⟨a, ha, hletter⟩ := readCommand_control hr hcontrol
    rw [strip_head hl hc] at ha
    cases ha
    simp [hi, he] at hletter

end Instruction

end Courier
