import Courier.Number.Numeral
import Courier.Proofs.Instruction.Form

namespace Courier

namespace Text

variable {p : Char → Bool} {c : Char} {cs : List Char}

/-- A text that neither begins nor ends with what is trimmed. -/
theorem trim_eq_self (hf : ∀ c ∈ cs.head?, p c = false) (hl : ∀ c ∈ cs.getLast?, p c = false) :
    trim p cs = cs := by
  unfold trim
  rw [dropWhile_eq_self hf, dropWhile_eq_self (by simpa using hl), List.reverse_reverse]

theorem digitValue?_of_isDigit (h : c.isDigit) : digitValue? c = some (c.toNat - 48) := by
  have hn := toNat_of_isDigit h
  unfold digitValue?
  rw [if_pos (by omega), if_pos h]

theorem isBlank_of_isDigit (h : c.isDigit) : isBlank c = false :=
  isBlank_of_digit (by simp [digitValue?_of_isDigit h])

theorem mapM_digitValue? (h : ∀ c ∈ cs, c.isDigit) :
    cs.mapM digitValue? = some (cs.map (fun c => c.toNat - 48)) := by
  induction cs with
  | nil => rfl
  | cons c cs ih =>
    have hc := digitValue?_of_isDigit (h c (by simp))
    rw [List.mapM_cons, hc, ih (fun d hd => h d (by simp [hd]))]
    rfl

end Text

namespace Instruction

open Text

theorem isDigit_toDigits (n : Nat) : ∀ c ∈ Nat.toDigits 10 n, c.isDigit :=
  fun _ hc => Nat.isDigit_of_mem_toDigits (by decide) (by decide) hc

/-- The values of the digits of a numeral. -/
def digitsOf (n : Nat) : List Nat := (Nat.toDigits 10 n).map (fun c => c.toNat - 48)

theorem ofDigits_digitsOf (n : Nat) : ofDigits (digitsOf n) = n := by
  rw [digitsOf, ofDigits_map, Nat.ofDigitChars_toDigits (by decide) (by decide)]

theorem areDigits_toDigits (n : Nat) : AreDigits (Nat.toDigits 10 n) (digitsOf n) := by
  refine ⟨mapM_digitValue? (isDigit_toDigits n), ?_⟩
  rw [digitsOf, Ne, List.map_eq_nil_iff]
  exact Nat.toDigits_ne_nil

theorem toList_ofNat (n : Nat) : (toString (n : Int)).toList = Nat.toDigits 10 n := by
  have he : toString (n : Int) = toString n := rfl
  rw [he]
  simp

theorem toList_negSucc (n : Nat) :
    (toString (Int.negSucc n)).toList = '-' :: Nat.toDigits 10 (n+1) := by
  have he : toString (Int.negSucc n) = "-" ++ toString (n+1) := rfl
  rw [he]
  simp

/-- A numeral is a sign and digits. -/
theorem numeral_form (i : Int) :
    ∃ sign digits, IsSign (decide (i < 0)) sign ∧ AreDigits digits (digitsOf i.natAbs) ∧
      (toString i).toList = sign ++ digits := by
  cases i with
  | ofNat n =>
    have hs : decide ((n : Int) < 0) = false := decide_eq_false (by omega)
    rw [Int.ofNat_eq_natCast, toList_ofNat, hs]
    exact ⟨[], _, .absent, areDigits_toDigits n, rfl⟩
  | negSucc n =>
    have hs : decide (Int.negSucc n < 0) = true := decide_eq_true (by omega)
    rw [toList_negSucc, hs]
    exact ⟨['-'], _, .minus, areDigits_toDigits (n+1), rfl⟩

/-- No numeral ends with a blank. -/
theorem numeral_last (i : Int) :
    ∃ c cs d, (toString i).toList = c :: cs ∧ (c :: cs).getLast? = some d ∧ isBlank d = false := by
  have hlast (n : Nat) : ∃ c cs d, Nat.toDigits 10 n = c :: cs ∧ (c :: cs).getLast? = some d ∧
      isBlank d = false := by
    obtain ⟨c, cs, hc⟩ := List.exists_cons_of_ne_nil (Nat.toDigits_ne_nil (n := n) (b := 10))
    have hd := isDigit_toDigits n
    rw [hc] at hd
    exact ⟨c, cs, _, hc, List.getLast?_eq_some_getLast (List.cons_ne_nil c cs),
      isBlank_of_isDigit (hd _ (List.getLast_mem _))⟩
  cases i with
  | ofNat n =>
    rw [Int.ofNat_eq_natCast, toList_ofNat]
    exact hlast n
  | negSucc n =>
    obtain ⟨c, cs, d, hc, hl, hd⟩ := hlast (n+1)
    rw [toList_negSucc, hc]
    exact ⟨'-', c :: cs, d, rfl, by rw [List.getLast?_cons_cons, hl], hd⟩

theorem checkWord_text (o : Opcode) : checkWord o.text o.text.toList = .ok () := by
  cases o <;> rfl

/-- The number that a sign and digits denote. -/
def signed (negative : Bool) (ds : List Nat) : Int :=
  if negative then -(ofDigits ds : Int) else ofDigits ds

theorem signed_digitsOf (i : Int) : signed (decide (i < 0)) (digitsOf i.natAbs) = i := by
  unfold signed
  rw [ofDigits_digitsOf]
  by_cases hi : i < 0
  · rw [decide_eq_true hi, if_pos rfl]
    omega
  · rw [decide_eq_false hi, if_neg Bool.false_ne_true]
    omega

/-- A count that is not too long is read if it is positive, and refused as it is otherwise. -/
theorem readCount_signed (o : Opcode) (text : String) (negative : Bool) {ds : List Nat}
    (hd : ds.length ≤ Number.maxDigits) :
    readCount o text negative ds =
      if 0 < signed negative ds then .ok (signed negative ds).toNat
      else .error (.instruction (.countNotPositive o (signed negative ds) text)) := by
  unfold readCount signed
  rw [if_neg (by omega)]
  dsimp only
  cases negative with
  | true =>
    rw [Bool.true_or, if_pos rfl, if_pos rfl, if_neg (by omega)]
  | false =>
    rw [Bool.false_or, if_neg Bool.false_ne_true]
    by_cases hz : ofDigits ds = 0
    · rw [if_pos (by simpa using hz), if_neg (by omega), hz]
      rfl
    · rw [if_neg (by simpa using hz), if_pos (by omega)]
      rfl

/-- A count that is not too long is read back if it is positive, and refused as it is otherwise. -/
theorem readCount_digitsOf (o : Opcode) (text : String) {i : Int}
    (hd : (Nat.toDigits 10 i.natAbs).length ≤ Number.maxDigits) :
    readCount o text (decide (i < 0)) (digitsOf i.natAbs) =
      if 0 < i then .ok i.toNat
      else .error (.instruction (.countNotPositive o i text)) := by
  have hlen : (digitsOf i.natAbs).length ≤ Number.maxDigits := by
    rwa [digitsOf, List.length_map]
  rw [readCount_signed o text _ hlen, signed_digitsOf]

theorem toList_counted (o : Opcode) (i : Int) :
    (o.text ++ " " ++ toString i).toList = o.text.toList ++ ' ' :: (toString i).toList := by
  simp

theorem areBlank_space : AreBlank [' '] := by
  refine ⟨by simp, ?_⟩
  intro c hc
  rw [List.mem_singleton.mp hc]
  rfl

/-- A word in capitals, a blank and a numeral are a counted line. -/
theorem isCounted_numeral (o : Opcode) (i : Int) :
    IsCounted o (o.text ++ " " ++ toString i) o.text.toList (decide (i < 0))
      (digitsOf i.natAbs) := by
  obtain ⟨sign, digits, hs, hd, ht⟩ := numeral_form i
  refine ⟨[' '], sign, digits, rfl, areBlank_space, hs, hd, ?_⟩
  rw [toList_counted, ht]
  rfl

theorem readCommand_numeral {command : Nat → Command} (hc : command ∈ Command.counted) (i : Int) :
    readCommand ((command 0).opcode.text ++ " " ++ toString i) =
      (readCount (command 0).opcode ((command 0).opcode.text ++ " " ++ toString i)
        (decide (i < 0)) (digitsOf i.natAbs)).map command := by
  rw [readCommand_of_counted hc (isCounted_numeral (command 0).opcode i), ofCounted, checkWord_text]
  cases readCount (command 0).opcode ((command 0).opcode.text ++ " " ++ toString i)
      (decide (i < 0)) (digitsOf i.natAbs) <;> rfl

theorem text_head (o : Opcode) : ∃ c cs, o.text.toList = c :: cs ∧ isBlank c = false := by
  cases o <;> exact ⟨_, _, rfl, rfl⟩

theorem strip_counted (o : Opcode) (i : Int) :
    strip (o.text ++ " " ++ toString i) = o.text ++ " " ++ toString i := by
  obtain ⟨c, cs, ho, hb⟩ := text_head o
  obtain ⟨d, ds, e, hd, hlast, he⟩ := numeral_last i
  unfold strip
  rw [trim_eq_self, String.ofList_toList]
  · rw [toList_counted, ho]
    simpa using hb
  · rw [toList_counted, List.getLast?_append, hd, List.getLast?_cons_cons, hlast]
    simpa using he

/-- The line of a counted command reads as the command if its count is positive, and is refused for
its count otherwise. -/
theorem parse_numeral {command : Nat → Command} (hc : command ∈ Command.counted) {i : Int}
    (hd : (Nat.toDigits 10 i.natAbs).length ≤ Number.maxDigits) :
    parse ((command 0).opcode.text ++ " " ++ toString i) =
      if 0 < i then .ok ⟨(command 0).opcode.text ++ " " ++ toString i, command i.toNat⟩
      else .error (.instruction (.countNotPositive (command 0).opcode i
        ((command 0).opcode.text ++ " " ++ toString i))) := by
  unfold parse
  dsimp only
  rw [strip_counted, readCommand_numeral hc, readCount_digitsOf _ _ hd]
  split <;> rfl

theorem line_counted {command : Nat → Command} (hc : command ∈ Command.counted) (n : Nat) :
    (command n).line = (command 0).opcode.text ++ " " ++ toString (n : Int) := by
  simp only [Command.counted, List.mem_cons, List.not_mem_nil, or_false] at hc
  rcases hc with rfl | rfl | rfl <;> rfl

/-- A counted command reads as it is spelled. -/
theorem parse_counted (command : Nat → Command) (hc : command ∈ Command.counted) {n : Nat}
    (hn : 0 < n) (hd : (Nat.toDigits 10 n).length ≤ Number.maxDigits) :
    parse (command n).line = .ok ⟨(command n).line, command n⟩ := by
  rw [line_counted hc, parse_numeral (i := n) hc hd, if_pos (by omega)]
  rfl

theorem parse_bare {c : Command} (hc : c ∈ Command.bare) : parse c.line = .ok ⟨c.line, c⟩ := by
  simp only [Command.bare, List.mem_cons, List.not_mem_nil, or_false] at hc
  rcases hc with rfl | rfl | rfl | rfl | rfl <;> rfl

end Instruction

end Courier
