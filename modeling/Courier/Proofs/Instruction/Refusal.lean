import Courier.Proofs.Instruction.Spelling
import Courier.Proofs.Text.Case

namespace Courier.Instruction

open Text

/-- An instruction or a fault of instructions, with this text in it. -/
def Answers (text : String) (r : Except Fault Instruction) : Prop :=
  (∃ i, r = .ok i ∧ i.text = text) ∨ ∃ f, r = .error (.instruction f) ∧ f.text? = some text

/-- A counted or a bare line with a foreign letter in its word. -/
def IsForeignLine (text : String) (word : List Char) : Prop :=
  (∃ c ∈ word, isForeign c) ∧
    ((∃ command ∈ Command.counted, ∃ negative ds,
        IsCounted (command 0).opcode text word negative ds) ∨
      ∃ command ∈ Command.bare, Spells command.opcode text.toList ∧ text.toList = word)

/-- A counted line with too many digits. -/
def IsOverlong (text : String) (digits : Nat) : Prop :=
  Number.maxDigits < digits ∧ ∃ command ∈ Command.counted, ∃ word negative ds,
    IsCounted (command 0).opcode text word negative ds ∧ (∀ c ∈ word, isForeign c = false) ∧
      ds.length = digits

section Word

variable {word letters : List Char} {o : Opcode}

theorem flatMap_capitals (hletters : ∀ l ∈ letters, l.toNat < 128 ∧ l.toUpper = l)
    (h : word.map sameLetter.fold = letters.map sameLetter.fold)
    (hn : ∀ c ∈ word, isForeign c = false) : word.flatMap capitals = letters := by
  induction letters generalizing word with
  | nil =>
    rw [List.map_eq_nil_iff.mp h]
    rfl
  | cons l letters ih =>
    cases word with
    | nil => cases h
    | cons c word =>
      obtain ⟨hc, hword⟩ := List.cons.inj h
      obtain ⟨hl, hrest⟩ := List.forall_mem_cons.mp hletters
      obtain ⟨hfirst, hnative⟩ := List.forall_mem_cons.mp hn
      have hsame : sameLetter l c := by simp [sameLetter, hc]
      rw [List.flatMap_cons, capitals_of_sameLetter hl.1 hl.2 hsame hfirst,
        ih hrest hword hnative]
      rfl

/-- The names of operations are in ASCII capitals. -/
theorem text_capitals (o : Opcode) : ∀ l ∈ o.text.toList, l.toNat < 128 ∧ l.toUpper = l := by
  have hall : o.text.toList.all (fun l => l.toNat < 128 && l.toUpper == l) := by
    cases o <;> rfl
  simpa using hall

theorem checkWord_native (h : Spells o word) (hn : ∀ c ∈ word, isForeign c = false) :
    checkWord o.text word = .ok () := by
  have hcapitals : upper (String.ofList word) = o.text := by
    rw [upper, String.toList_ofList, flatMap_capitals (text_capitals o) h hn, String.ofList_toList]
  unfold checkWord
  dsimp only
  rw [if_pos hcapitals]

theorem checkWord_foreign (h : ∃ c ∈ word, isForeign c) :
    checkWord o.text word = .error (.opcode (upper (String.ofList word))) := by
  obtain ⟨c, hc, hf⟩ := h
  have hcapitals : upper (String.ofList word) ≠ o.text := by
    -- The letter is still there among the capitals, which are not in ASCII then.
    intro he
    have hmem : c ∈ o.text.toList := by
      rw [← he, upper, String.toList_ofList, String.toList_ofList, List.mem_flatMap]
      exact ⟨c, hc, by simp [capitals_of_isForeign hf]⟩
    have hascii := (text_capitals o c hmem).1
    simp only [isForeign, Bool.or_eq_true, decide_eq_true_eq] at hf
    omega
  unfold checkWord
  dsimp only
  rw [if_neg hcapitals]

end Word

section Line

variable {text : String} {word : List Char} {digits : Nat}

theorem readCommand_foreign (h : IsForeignLine text word) :
    readCommand text = .error (.opcode (upper (String.ofList word))) := by
  obtain ⟨hf, ⟨command, hc, negative, ds, hform⟩ | ⟨command, hc, hform, hw⟩⟩ := h
  · rw [readCommand_of_counted hc hform, ofCounted, checkWord_foreign hf]
    rfl
  · rw [readCommand_of_bare hc hform, hw, ofBare, checkWord_foreign hf]
    rfl

theorem ofCounted_native {command : Nat → Command} {negative : Bool} {ds : List Nat}
    (h : IsCounted (command 0).opcode text word negative ds)
    (hn : ∀ c ∈ word, isForeign c = false) :
    ofCounted text command word negative ds =
      (readCount (command 0).opcode text negative ds).map command := by
  obtain ⟨_, _, _, hw, _⟩ := h
  rw [ofCounted, checkWord_native hw hn]
  cases readCount (command 0).opcode text negative ds <;> rfl

theorem readCommand_overlong (h : IsOverlong text digits) :
    readCommand text = .error (.number (.tooManyDigits digits)) := by
  obtain ⟨hd, command, hc, word, negative, ds, hform, hn, rfl⟩ := h
  rw [readCommand_of_counted hc hform, ofCounted_native hform hn, readCount, if_pos hd]
  rfl

theorem readCount_short (o : Opcode) (text : String) (negative : Bool) {ds : List Nat}
    (h : ¬Number.maxDigits < ds.length) :
    (∃ n, readCount o text negative ds = .ok n) ∨
      ∃ f, readCount o text negative ds = .error (.instruction f) ∧ f.text? = some text := by
  unfold readCount
  rw [if_neg h]
  dsimp only
  split
  · exact .inr ⟨_, rfl, rfl⟩
  · exact .inl ⟨_, rfl⟩

/-- A text that is neither foreign nor too long is read, or refused as an instruction. -/
theorem readCommand_answers (hf : ∀ word, ¬IsForeignLine text word)
    (hl : ∀ digits, ¬IsOverlong text digits) :
    (∃ c, readCommand text = .ok c) ∨
      ∃ f, readCommand text = .error (.instruction f) ∧ f.text? = some text := by
  have hnative {word : List Char} (h : ¬∃ c ∈ word, isForeign c) :
      ∀ c ∈ word, isForeign c = false := by
    intro c hc
    by_contra hne
    exact h ⟨c, hc, by simpa using hne⟩
  rcases readCommand_forms text with ⟨command, hc, word, negative, ds, hform, hr⟩ |
    ⟨command, hc, hform, hr⟩ | ⟨name, _, hr⟩ | hr
  · have hn := hnative fun h => hf word ⟨h, .inl ⟨command, hc, negative, ds, hform⟩⟩
    have hshort : ¬Number.maxDigits < ds.length := fun h =>
      hl ds.length ⟨h, command, hc, word, negative, ds, hform, hn, rfl⟩
    rw [hr, ofCounted_native hform hn]
    rcases readCount_short (command 0).opcode text negative hshort with ⟨n, hcount⟩ |
      ⟨f, hcount, ht⟩
    · rw [hcount]
      exact .inl ⟨_, rfl⟩
    · rw [hcount]
      exact .inr ⟨f, rfl, ht⟩
  · have hn := hnative fun h => hf text.toList ⟨h, .inr ⟨command, hc, hform, rfl⟩⟩
    rw [hr, ofBare, checkWord_native hform hn]
    exact .inl ⟨_, rfl⟩
  · exact .inl ⟨_, hr⟩
  · exact .inr ⟨_, hr, rfl⟩

/-- Reading a line comes to an instruction or to a fault of instructions with the stripped line in
it, except for a word with a foreign letter, which names no operation, and for a count with too many
digits, which is no number. -/
theorem parse_answers_iff (line : String) :
    (Answers (strip line) (parse line) ↔
        (∀ word, ¬IsForeignLine (strip line) word) ∧ ∀ digits, ¬IsOverlong (strip line) digits) ∧
      (∀ word, IsForeignLine (strip line) word →
        parse line = .error (.opcode (upper (String.ofList word)))) ∧
      ∀ digits, IsOverlong (strip line) digits →
        parse line = .error (.number (.tooManyDigits digits)) := by
  have hforeign (word : List Char) (h : IsForeignLine (strip line) word) :
      parse line = .error (.opcode (upper (String.ofList word))) := by
    unfold parse
    dsimp only
    rw [readCommand_foreign h]
    rfl
  have hoverlong (digits : Nat) (h : IsOverlong (strip line) digits) :
      parse line = .error (.number (.tooManyDigits digits)) := by
    unfold parse
    dsimp only
    rw [readCommand_overlong h]
    rfl
  refine ⟨⟨?_, ?_⟩, hforeign, hoverlong⟩
  · intro h
    constructor
    · intro word hf
      rw [hforeign word hf] at h
      rcases h with ⟨i, hi, _⟩ | ⟨f, hi, _⟩ <;> cases hi
    · intro digits hl
      rw [hoverlong digits hl] at h
      rcases h with ⟨i, hi, _⟩ | ⟨f, hi, _⟩ <;> cases hi
  · rintro ⟨hf, hl⟩
    unfold parse
    dsimp only
    rcases readCommand_answers hf hl with ⟨c, hr⟩ | ⟨f, hr, ht⟩
    · rw [hr]
      exact .inl ⟨_, rfl, rfl⟩
    · rw [hr]
      exact .inr ⟨f, rfl, ht⟩

/-- The dotted capital i is read as an i, but its capital is not one. -/
theorem parse_dotted_not_answers : ¬Answers (strip "P\u0130CKUP") (parse "P\u0130CKUP") := by
  have hr : parse "P\u0130CKUP" = .error (.opcode "P\u0130CKUP") := rfl
  rw [hr]
  rintro (⟨i, hi, _⟩ | ⟨f, hf, _⟩)
  · cases hi
  · cases hf

end Line

end Courier.Instruction
