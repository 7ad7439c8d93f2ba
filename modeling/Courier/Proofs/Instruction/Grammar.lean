import Courier.Proofs.Instruction.Refusal
import Courier.Proofs.Text.Lines

namespace Courier

namespace Text

variable {c : Char} {cs ds : List Char}

def IsAscii (cs : List Char) : Prop := ∀ c ∈ cs, c.toNat < 128

instance : DecidablePred IsAscii :=
  fun cs => List.decidableBAll (fun c : Char => c.toNat < 128) cs

theorem isAscii_append : IsAscii (cs ++ ds) ↔ IsAscii cs ∧ IsAscii ds := by
  simp only [IsAscii, List.mem_append]
  exact ⟨fun h => ⟨fun c hc => h c (.inl hc), fun c hc => h c (.inr hc)⟩,
    fun ⟨hc, hd⟩ c h => h.elim (hc c) (hd c)⟩

/-- No run of digits is longer than a number may be. -/
def HasShortRuns (cs : List Char) : Prop :=
  ∀ run, run <:+: cs → (∀ c ∈ run, c.isDigit) → run.length ≤ Number.maxDigits

theorem HasShortRuns.of_length (h : cs.length ≤ Number.maxDigits) : HasShortRuns cs :=
  fun _ hrun _ => hrun.length_le.trans h

theorem HasShortRuns.mono (h : HasShortRuns cs) (hi : ds <:+: cs) : HasShortRuns ds :=
  fun run hrun => h run (hrun.trans hi)

theorem IsAscii.mono (h : IsAscii cs) (hi : ds <:+: cs) : IsAscii ds :=
  fun c hc => h c (hi.sublist.mem hc)

theorem trim_infix (p : Char → Bool) (cs : List Char) : trim p cs <:+: cs := by
  have hfront : trim p cs <+: cs.dropWhile p := by
    unfold trim
    rw [← List.reverse_suffix, List.reverse_reverse]
    exact List.dropWhile_suffix p
  exact hfront.isInfix.trans (List.dropWhile_suffix p).isInfix

theorem map_fold (h : IsAscii cs) : cs.map sameLetter.fold = cs.map Char.toLower :=
  List.map_congr_left fun c hc => fold_of_ascii (h c hc)

theorem upper_ofList (h : IsAscii cs) :
    upper (String.ofList cs) = String.ofList (cs.map Char.toUpper) := by
  unfold upper
  rw [String.toList_ofList, List.flatMap_congr fun c hc => capitals_of_ascii (h c hc),
    List.map_eq_flatMap]

theorem isDigit_of_digitValue? (hc : c.toNat < 128) (h : (digitValue? c).isSome) : c.isDigit := by
  simpa [digitValue?, hc] using h

/-- A fact about each of the characters of ASCII. -/
theorem ascii_forall {P : Char → Prop} (h : ∀ n < 128, P (Char.ofNat n)) (hc : c.toNat < 128) :
    P c := by
  have hp := h c.toNat hc
  rwa [Char.ofNat_toNat] at hp

end Text

namespace Instruction

open Text

/-- A keyword in any letter case. -/
def IsKeyword (keyword : String) (word : List Char) : Prop :=
  word.map Char.toLower = keyword.toList.map Char.toLower

def AreDecimal (digits : List Char) : Prop := digits ≠ [] ∧ ∀ c ∈ digits, c.isDigit

/-- The number that decimal digits denote. -/
def decimalValue (digits : List Char) : Int := Nat.ofDigitChars 10 digits 0

/-- Decimal digits after a sign, which may be left out, and the number that they denote. -/
inductive IsNumeral : Int → List Char → Prop
  | unsigned {digits : List Char} : AreDecimal digits → IsNumeral (decimalValue digits) digits
  | plus {digits : List Char} : AreDecimal digits → IsNumeral (decimalValue digits) ('+' :: digits)
  | minus {digits : List Char} :
    AreDecimal digits → IsNumeral (-decimalValue digits) ('-' :: digits)

def IsNameStart (c : Char) : Prop := c.isAlpha ∨ c = '_'

/-- A letter or an underscore, and letters, digits and underscores after it. -/
def IsName (name : List Char) : Prop :=
  ∃ c cs, name = c :: cs ∧ IsNameStart c ∧ ∀ d ∈ cs, IsNameStart d ∨ d.isDigit

def countedKeywords : List (String × (Nat → Command)) :=
  [("MOVE_FORWARD", .moveForward), ("MOVE_BACKWARD", .moveBackward), ("WAIT", .wait)]

def bareKeywords : List (String × Command) :=
  [("TURN_LEFT", .turnLeft), ("TURN_RIGHT", .turnRight), ("PICKUP", .pickup),
    ("DROPOFF", .dropoff), ("END_IF", .endBranch)]

/-- A keyword, blanks and a numeral. -/
def IsCountLine (keyword : String) (i : Int) (text : String) : Prop :=
  ∃ word blanks numeral, IsKeyword keyword word ∧ AreBlank blanks ∧ IsNumeral i numeral ∧
    text.toList = word ++ (blanks ++ numeral)

/-- What a text asks for. -/
inductive Asks (text : String) : Command → Prop
  | counted {keyword : String} {command : Nat → Command} {n : Nat} :
    (keyword, command) ∈ countedKeywords → 0 < n → IsCountLine keyword n text →
      Asks text (command n)
  | bare {keyword : String} {command : Command} :
    (keyword, command) ∈ bareKeywords → IsKeyword keyword text.toList → Asks text command
  | branch {word blanks name : List Char} :
    IsKeyword "IF" word → AreBlank blanks → IsName name →
      text.toList = word ++ (blanks ++ name) →
      Asks text (.branch (String.ofList (name.map Char.toUpper)))

/-- A text that would ask for something if its count were positive. -/
def Overdraws (text : String) (o : Opcode) (i : Int) : Prop :=
  i ≤ 0 ∧ ∃ keyword command, (keyword, command) ∈ countedKeywords ∧
    IsCountLine keyword i text ∧ o = (command 0).opcode

section Keywords

theorem countedKeywords_eq :
    countedKeywords = Command.counted.map (fun command => ((command 0).opcode.text, command)) :=
  rfl

theorem bareKeywords_eq :
    bareKeywords = Command.bare.map (fun command => (command.opcode.text, command)) := rfl

theorem mem_countedKeywords {keyword : String} {command : Nat → Command} :
    (keyword, command) ∈ countedKeywords ↔
      command ∈ Command.counted ∧ keyword = (command 0).opcode.text := by
  rw [countedKeywords_eq, List.mem_map]
  constructor
  · rintro ⟨c, hc, he⟩
    cases he
    exact ⟨hc, rfl⟩
  · rintro ⟨hc, rfl⟩
    exact ⟨command, hc, rfl⟩

theorem mem_bareKeywords {keyword : String} {command : Command} :
    (keyword, command) ∈ bareKeywords ↔
      command ∈ Command.bare ∧ keyword = command.opcode.text := by
  rw [bareKeywords_eq, List.mem_map]
  constructor
  · rintro ⟨c, hc, he⟩
    cases he
    exact ⟨hc, rfl⟩
  · rintro ⟨hc, rfl⟩
    exact ⟨command, hc, rfl⟩

theorem spells_iff {o : Opcode} {word : List Char} (h : IsAscii word) :
    Spells o word ↔ IsKeyword o.text word := by
  unfold Spells IsKeyword
  rw [map_fold h, map_fold fun c hc => (text_capitals o c hc).1]

theorem not_foreign {word : List Char} (h : IsAscii word) : ∀ c ∈ word, isForeign c = false := by
  intro c hc
  have hascii := h c hc
  simp only [isForeign, Bool.or_eq_false_iff, decide_eq_false_iff_not]
  omega

end Keywords

section Numerals

variable {digits numeral : List Char} {ds : List Nat} {text : String} {o : Opcode} {i : Int}

theorem isSome_of_mapM (h : digits.mapM digitValue? = some ds) :
    ∀ c ∈ digits, (digitValue? c).isSome := by
  induction digits generalizing ds with
  | nil => simp
  | cons c digits ih =>
    rw [List.mapM_cons] at h
    obtain ⟨d, hd, h⟩ := Option.bind_eq_some_iff.mp h
    obtain ⟨ds', hds, _⟩ := Option.bind_eq_some_iff.mp h
    exact List.forall_mem_cons.mpr ⟨by rw [hd]; rfl, ih hds⟩

theorem areDigits_iff (h : IsAscii digits) :
    AreDigits digits ds ↔ AreDecimal digits ∧ ds = digits.map (fun c => c.toNat - 48) := by
  constructor
  · rintro ⟨hm, hne⟩
    have hdigit : ∀ c ∈ digits, c.isDigit := fun c hc =>
      isDigit_of_digitValue? (h c hc) (isSome_of_mapM hm c hc)
    rw [mapM_digitValue? hdigit] at hm
    cases hm
    exact ⟨⟨by simpa using hne, hdigit⟩, rfl⟩
  · rintro ⟨⟨hne, hdigit⟩, rfl⟩
    exact ⟨mapM_digitValue? hdigit, by simpa using hne⟩

/-- A numeral is a sign and digits that denote its number. -/
theorem isNumeral_iff (h : IsAscii numeral) :
    IsNumeral i numeral ↔ ∃ negative sign digits ds, IsSign negative sign ∧ AreDigits digits ds ∧
      numeral = sign ++ digits ∧ i = signed negative ds := by
  have hvalue (digits : List Char) :
      (ofDigits (digits.map (fun c => c.toNat - 48)) : Int) = decimalValue digits := by
    rw [ofDigits_map, decimalValue]
  constructor
  · intro hi
    cases hi with
    | unsigned hd =>
      exact ⟨false, [], numeral, _, .absent, (areDigits_iff h).mpr ⟨hd, rfl⟩, rfl,
        (hvalue numeral).symm⟩
    | @plus digits hd =>
      have hascii : IsAscii digits := h.mono (List.suffix_cons _ _).isInfix
      exact ⟨false, ['+'], digits, _, .plus, (areDigits_iff hascii).mpr ⟨hd, rfl⟩, rfl,
        (hvalue digits).symm⟩
    | @minus digits hd =>
      have hascii : IsAscii digits := h.mono (List.suffix_cons _ _).isInfix
      exact ⟨true, ['-'], digits, _, .minus, (areDigits_iff hascii).mpr ⟨hd, rfl⟩, rfl,
        (congrArg Neg.neg (hvalue digits)).symm⟩
  · rintro ⟨negative, sign, digits, ds, hs, hd, rfl, rfl⟩
    obtain ⟨hdecimal, rfl⟩ := (areDigits_iff (isAscii_append.mp h).2).mp hd
    cases hs with
    | absent =>
      rw [signed, if_neg Bool.false_ne_true, hvalue]
      exact .unsigned hdecimal
    | plus =>
      rw [signed, if_neg Bool.false_ne_true, hvalue]
      exact .plus hdecimal
    | minus =>
      rw [signed, if_pos rfl, hvalue]
      exact .minus hdecimal

theorem IsCounted.isAscii_word {word : List Char} {negative : Bool}
    (hc : IsCounted o text word negative ds) (h : IsAscii text.toList) : IsAscii word := by
  obtain ⟨_, _, _, _, _, _, _, ht⟩ := hc
  rw [ht, isAscii_append] at h
  exact h.1

/-- A count line in ASCII is a counted line with that count. -/
theorem isCountLine_iff (h : IsAscii text.toList) :
    IsCountLine o.text i text ↔
      ∃ word negative ds, IsCounted o text word negative ds ∧ i = signed negative ds := by
  constructor
  · rintro ⟨word, blanks, numeral, hw, hb, hn, ht⟩
    rw [ht, isAscii_append, isAscii_append] at h
    obtain ⟨negative, sign, digits, ds, hs, hd, rfl, rfl⟩ := (isNumeral_iff h.2.2).mp hn
    exact ⟨word, negative, ds, ⟨blanks, sign, digits, (spells_iff h.1).mpr hw, hb, hs, hd, ht⟩,
      rfl⟩
  · rintro ⟨word, negative, ds, ⟨blanks, sign, digits, hw, hb, hs, hd, ht⟩, rfl⟩
    rw [ht, isAscii_append, isAscii_append] at h
    exact ⟨word, blanks, sign ++ digits, (spells_iff h.1).mp hw, hb,
      (isNumeral_iff h.2.2).mpr ⟨negative, sign, digits, ds, hs, hd, rfl, rfl⟩, ht⟩

theorem IsCounted.length_le {word : List Char} {negative : Bool}
    (hc : IsCounted o text word negative ds) (h : IsAscii text.toList)
    (hr : HasShortRuns text.toList) : ds.length ≤ Number.maxDigits := by
  obtain ⟨blanks, sign, digits, _, _, _, hd, ht⟩ := hc
  rw [ht, isAscii_append, isAscii_append, isAscii_append] at h
  obtain ⟨hdecimal, rfl⟩ := (areDigits_iff h.2.2.2).mp hd
  have hinfix : digits <:+: text.toList := by
    rw [ht, ← List.append_assoc, ← List.append_assoc]
    exact (List.suffix_append _ _).isInfix
  rw [List.length_map]
  exact hr digits hinfix hdecimal.2

/-- A counted line is read if its count is positive, and refused for it otherwise. -/
theorem readCommand_count {command : Nat → Command} (hc : command ∈ Command.counted)
    (h : IsAscii text.toList) (hr : HasShortRuns text.toList)
    (hi : IsCountLine (command 0).opcode.text i text) :
    readCommand text =
      if 0 < i then .ok (command i.toNat)
      else .error (.instruction (.countNotPositive (command 0).opcode i text)) := by
  obtain ⟨word, negative, ds, hform, rfl⟩ := (isCountLine_iff h).mp hi
  rw [readCommand_of_counted hc hform, ofCounted_native hform (not_foreign (hform.isAscii_word h)),
    readCount_signed _ _ _ (hform.length_le h hr)]
  split <;> rfl

end Numerals

section Names

variable {name : List Char} {c : Char} {text : String}

theorem isIdentifierStart_iff (h : c.toNat < 128) : isIdentifierStart c ↔ IsNameStart c := by
  have hletter : [0x130, 0x131, 0x17f, 0x212a].contains c.toNat = false := by
    simp only [List.contains_cons, List.contains_nil, Bool.or_false, Bool.or_eq_false_iff,
      beq_eq_false_iff_ne]
    omega
  unfold isIdentifierStart IsNameStart
  rw [hletter, Bool.or_false, Bool.or_eq_true, decide_eq_true_eq, or_comm]

theorem isIdentifier_iff (h : IsAscii name) : isIdentifier name ↔ IsName name := by
  cases name with
  | nil => simp [isIdentifier, IsName]
  | cons c cs =>
    obtain ⟨hc, hcs⟩ := List.forall_mem_cons.mp h
    simp only [isIdentifier, Bool.and_eq_true, List.all_eq_true, Bool.or_eq_true,
      isIdentifierStart_iff hc]
    have hrest : (∀ d ∈ cs, isIdentifierStart d = true ∨ d.isDigit = true) ↔
        ∀ d ∈ cs, IsNameStart d ∨ d.isDigit :=
      forall₂_congr fun d hd => by rw [isIdentifierStart_iff (hcs d hd)]
    rw [hrest]
    constructor
    · rintro ⟨hstart, hall⟩
      exact ⟨c, cs, rfl, hstart, hall⟩
    · rintro ⟨_, _, he, hstart, hall⟩
      cases he
      exact ⟨hstart, hall⟩

instance : DecidablePred IsNameStart :=
  fun c => inferInstanceAs (Decidable (c.isAlpha ∨ c = '_'))

theorem toNat_of_isNameStart (h : IsNameStart c) : c.toNat < 128 := by
  rcases h with h | rfl
  · rw [Char.isAlpha, Bool.or_eq_true, isUpper_iff, isLower_iff] at h
    omega
  · decide

theorem IsName.isAscii (h : IsName name) : IsAscii name := by
  obtain ⟨c, cs, rfl, hc, hcs⟩ := h
  refine List.forall_mem_cons.mpr ⟨toNat_of_isNameStart hc, fun d hd => ?_⟩
  rcases hcs d hd with hstart | hdigit
  · exact toNat_of_isNameStart hstart
  · have hn := toNat_of_isDigit hdigit
    omega

/-- The capitals of a name are one. -/
theorem IsName.capitals (h : IsName name) : IsName (name.map Char.toUpper) := by
  have hstart {c : Char} (h : IsNameStart c) : IsNameStart c.toUpper :=
    ascii_forall (P := fun c => IsNameStart c → IsNameStart c.toUpper) (by decide +kernel)
      (toNat_of_isNameStart h) h
  have hdigit {c : Char} (h : c.isDigit) : c.toUpper.isDigit := by
    have hn := toNat_of_isDigit h
    exact ascii_forall (P := fun c => c.isDigit → c.toUpper.isDigit) (by decide +kernel)
      (by omega) h
  obtain ⟨c, cs, rfl, hc, hcs⟩ := h
  refine ⟨_, _, rfl, hstart hc, fun d hd => ?_⟩
  obtain ⟨e, he, rfl⟩ := List.mem_map.mp hd
  exact (hcs e he).imp hstart hdigit

theorem IsName.areVisible (h : IsName name) : AreVisible name := by
  have hstart {c : Char} (h : IsNameStart c) : IsVisible c :=
    ascii_forall (P := fun c => IsNameStart c → IsVisible c) (by decide +kernel)
      (toNat_of_isNameStart h) h
  obtain ⟨c, cs, rfl, hc, hcs⟩ := h
  refine AreVisible.cons (hstart hc) fun d hd => ?_
  exact (hcs d hd).elim hstart isVisible_of_isDigit

/-- A branch in ASCII asks for a branch on its name in capitals. -/
theorem isBranch_iff (h : IsAscii text.toList) :
    IsBranch text name ↔ ∃ word blanks, IsKeyword "IF" word ∧ AreBlank blanks ∧ IsName name ∧
      text.toList = word ++ (blanks ++ name) := by
  refine exists₂_congr fun word blanks => ?_
  constructor
  · rintro ⟨hw, hb, hn, ht⟩
    rw [ht, isAscii_append, isAscii_append] at h
    exact ⟨(spells_iff h.1).mp hw, hb, (isIdentifier_iff h.2.2).mp hn, ht⟩
  · rintro ⟨hw, hb, hn, ht⟩
    rw [ht, isAscii_append, isAscii_append] at h
    exact ⟨(spells_iff h.1).mpr hw, hb, (isIdentifier_iff h.2.2).mpr hn, ht⟩

/-- The line of a branch on a name in capitals reads as it is spelled. -/
theorem parse_branch (h : IsName name) :
    parse (Command.branch (String.ofList (name.map Char.toUpper))).line =
      .ok ⟨(Command.branch (String.ofList (name.map Char.toUpper))).line,
        .branch (String.ofList (name.map Char.toUpper))⟩ := by
  have hcapitals := h.capitals
  have hline : (Command.branch (String.ofList (name.map Char.toUpper))).line =
      "IF" ++ " " ++ String.ofList (name.map Char.toUpper) := rfl
  have hplain : IsPlainLine ("IF" ++ " " ++ String.ofList (name.map Char.toUpper)) := by
    obtain ⟨c, cs, hname, _⟩ := hcapitals
    have hvisible : AreVisible (String.ofList (name.map Char.toUpper)).toList := by
      rw [String.toList_ofList]
      exact h.capitals.areVisible
    have hne : String.ofList (name.map Char.toUpper) ≠ "" := by
      intro he
      have hnil := congrArg String.toList he
      rw [String.toList_ofList, hname] at hnil
      cases hnil
    have hword := isPlainLine_of_visible hvisible hne
    exact (isPlainLine_keyword (by decide) (by decide) hword.stripped).mpr
      ⟨hne, fun c hc => (hvisible c hc).not_lineEnd⟩
  have hform : IsBranch ("IF" ++ " " ++ String.ofList (name.map Char.toUpper))
      (name.map Char.toUpper) :=
    ⟨['I', 'F'], [' '], rfl, areBlank_space, (isIdentifier_iff hcapitals.isAscii).mpr hcapitals,
      by simp⟩
  have hupper : upper (String.ofList (name.map Char.toUpper)) =
      String.ofList (name.map Char.toUpper) := by
    rw [← upper_ofList h.isAscii, upper_upper]
  unfold parse
  dsimp only
  rw [hline, hplain.stripped, readCommand_of_branch hform, hupper]
  rfl

end Names

section Lines

variable {text line : String} {o : Opcode} {i : Int} {c : Command}

/-- A count that is read can be written again. -/
theorem length_count {n : Nat} (h : IsAscii text.toList) (hr : HasShortRuns text.toList)
    (hn : 0 < n) (hi : IsCountLine o.text n text) :
    (Nat.toDigits 10 n).length ≤ Number.maxDigits := by
  obtain ⟨word, negative, ds, hform, hsigned⟩ := (isCountLine_iff h).mp hi
  have hlength := hform.length_le h hr
  obtain ⟨blanks, sign, digits, _, _, _, hd, ht⟩ := hform
  rw [ht, isAscii_append, isAscii_append, isAscii_append] at h
  obtain ⟨⟨hne, hdigit⟩, rfl⟩ := (areDigits_iff h.2.2.2).mp hd
  have hvalue : n = Nat.ofDigitChars 10 digits 0 := by
    unfold signed at hsigned
    rw [ofDigits_map] at hsigned
    split at hsigned <;> omega
  rw [List.length_map] at hlength
  refine le_trans (Nat.toDigits_length 10 n digits.length (List.length_pos_iff.mpr hne) ?_) hlength
  rw [hvalue]
  simpa using ofDigitChars_lt hdigit 0

theorem Asks.read (ha : Asks text c) (h : IsAscii text.toList) (hr : HasShortRuns text.toList) :
    readCommand text = .ok c := by
  cases ha with
  | @counted keyword command n hmem hn hi =>
    obtain ⟨hc, rfl⟩ := mem_countedKeywords.mp hmem
    rw [readCommand_count hc h hr hi, if_pos (by omega), Int.toNat_natCast]
  | bare hmem hw =>
    obtain ⟨hc, rfl⟩ := mem_bareKeywords.mp hmem
    have hform := (spells_iff h).mpr hw
    rw [readCommand_of_bare hc hform, ofBare, checkWord_native hform (not_foreign h)]
    rfl
  | branch hw hb hn ht =>
    rw [readCommand_of_branch ((isBranch_iff h).mpr ⟨_, _, hw, hb, hn, ht⟩),
      upper_ofList hn.isAscii]

theorem Overdraws.read (ho : Overdraws text o i) (h : IsAscii text.toList)
    (hr : HasShortRuns text.toList) :
    readCommand text = .error (.instruction (.countNotPositive o i text)) := by
  obtain ⟨hi, keyword, command, hmem, hline, rfl⟩ := ho
  obtain ⟨hc, rfl⟩ := mem_countedKeywords.mp hmem
  rw [readCommand_count hc h hr hline, if_neg (by omega)]

/-- What a text of ASCII comes to. -/
theorem readCommand_ascii (h : IsAscii text.toList) :
    (∃ c, Asks text c) ∨ (∃ o i, Overdraws text o i) ∨
      readCommand text = .error (.instruction (.unknown text)) := by
  rcases readCommand_forms text with ⟨command, hc, word, negative, ds, hform, _⟩ |
    ⟨command, hc, hform, _⟩ | ⟨name, hform, _⟩ | hunknown
  · have hmem := mem_countedKeywords.mpr ⟨hc, rfl⟩
    have hi := (isCountLine_iff h).mpr ⟨word, negative, ds, hform, rfl⟩
    by_cases hpos : 0 < signed negative ds
    · rw [← Int.toNat_of_nonneg hpos.le] at hi
      exact .inl ⟨_, .counted hmem (by omega) hi⟩
    · exact .inr (.inl ⟨_, _, by omega, _, command, hmem, hi, rfl⟩)
  · exact .inl ⟨_, .bare (mem_bareKeywords.mpr ⟨hc, rfl⟩) ((spells_iff h).mp hform)⟩
  · obtain ⟨word, blanks, hw, hb, hn, ht⟩ := (isBranch_iff h).mp hform
    exact .inl ⟨_, .branch hw hb hn ht⟩
  · exact .inr (.inr hunknown)

theorem readCommand_eq_ok (h : IsAscii text.toList) (hr : HasShortRuns text.toList) :
    readCommand text = .ok c ↔ Asks text c := by
  constructor
  · intro hc
    rcases readCommand_ascii h with ⟨d, ha⟩ | ⟨o, i, ho⟩ | hunknown
    · rw [ha.read h hr] at hc
      cases hc
      exact ha
    · rw [ho.read h hr] at hc
      cases hc
    · rw [hunknown] at hc
      cases hc
  · exact fun ha => ha.read h hr

theorem readCommand_eq_error {f : Fault} (h : IsAscii text.toList) (hr : HasShortRuns text.toList) :
    readCommand text = .error f ↔
      (∃ o i, Overdraws text o i ∧ f = .instruction (.countNotPositive o i text)) ∨
        ((∀ c, ¬Asks text c) ∧ (∀ o i, ¬Overdraws text o i) ∧
          f = .instruction (.unknown text)) := by
  constructor
  · intro hf
    have hnone : ∀ c, ¬Asks text c := by
      intro c ha
      rw [ha.read h hr] at hf
      cases hf
    by_cases ho : ∃ o i, Overdraws text o i
    · obtain ⟨o, i, ho⟩ := ho
      rw [ho.read h hr] at hf
      exact .inl ⟨o, i, ho, (Except.error.inj hf).symm⟩
    · rcases readCommand_ascii h with ⟨c, ha⟩ | ho' | hunknown
      · exact absurd ha (hnone c)
      · exact absurd ho' ho
      · rw [hunknown] at hf
        exact .inr ⟨hnone, fun o i ho' => ho ⟨o, i, ho'⟩, (Except.error.inj hf).symm⟩
  · rintro (⟨o, i, ho, rfl⟩ | ⟨hnone, hfew, rfl⟩)
    · exact ho.read h hr
    · rcases readCommand_ascii h with ⟨c, ha⟩ | ⟨o, i, ho⟩ | hunknown
      · exact absurd ha (hnone c)
      · exact absurd ho (hfew o i)
      · exact hunknown

/-- A command that a text asks for reads as it is spelled. -/
theorem Asks.parse_line (ha : Asks text c) (h : IsAscii text.toList)
    (hr : HasShortRuns text.toList) : parse c.line = .ok ⟨c.line, c⟩ := by
  cases ha with
  | @counted keyword command n hmem hn hi =>
    obtain ⟨hc, rfl⟩ := mem_countedKeywords.mp hmem
    exact parse_counted command hc hn (length_count h hr hn hi)
  | bare hmem hw => exact parse_bare (mem_bareKeywords.mp hmem).1
  | branch hw hb hn ht => exact parse_branch hn

/-- A line of ASCII whose runs of digits are not too long is read as what it asks for, without the
blanks at its ends; it is refused for its count if only this is wrong with it, and unknown
otherwise. What is read reads again as it is spelled. -/
theorem parse_exact {line : String} (h : IsAscii line.toList) (hr : HasShortRuns line.toList) :
    (∀ i, parse line = .ok i ↔ i.text = strip line ∧ Asks (strip line) i.command) ∧
      (∀ f, parse line = .error f ↔
        (∃ o n, Overdraws (strip line) o n ∧
            f = .instruction (.countNotPositive o n (strip line))) ∨
          ((∀ c, ¬Asks (strip line) c) ∧ (∀ o n, ¬Overdraws (strip line) o n) ∧
            f = .instruction (.unknown (strip line)))) ∧
      ∀ i, parse line = .ok i → parse i.command.line = .ok ⟨i.command.line, i.command⟩ := by
  have hinfix : (strip line).toList <:+: line.toList := by
    rw [strip, String.toList_ofList]
    exact trim_infix _ _
  have hascii := h.mono hinfix
  have hruns := hr.mono hinfix
  have hok (i : Instruction) :
      parse line = .ok i ↔ i.text = strip line ∧ Asks (strip line) i.command := by
    rw [← readCommand_eq_ok hascii hruns]
    constructor
    · intro hi
      obtain ⟨c, hc, hi⟩ := bind_eq_ok hi
      cases hi
      exact ⟨rfl, hc⟩
    · rintro ⟨ht, hc⟩
      unfold parse
      dsimp only
      rw [hc, ← ht]
      rfl
  refine ⟨hok, fun f => ?_, fun i hi => ((hok i).mp hi).2.parse_line hascii hruns⟩
  rw [← readCommand_eq_error hascii hruns]
  constructor
  · intro hf
    rcases bind_eq_error hf with hf | ⟨c, _, hf⟩
    · exact hf
    · cases hf
  · intro hf
    unfold parse
    dsimp only
    rw [hf]
    rfl

/-- Letters in any case, more than one blank, a sign and leading zeros. -/
theorem parse_exact_padded :
    IsAscii "\x1c Wait\t\n+007\r\n".toList ∧ HasShortRuns "\x1c Wait\t\n+007\r\n".toList ∧
      parse "\x1c Wait\t\n+007\r\n" = .ok ⟨"Wait\t\n+007", .wait 7⟩ ∧
      parse "WAIT 7" = .ok ⟨"WAIT 7", .wait 7⟩ := by
  have hascii : IsAscii "\x1c Wait\t\n+007\r\n".toList := by decide
  have hruns : HasShortRuns "\x1c Wait\t\n+007\r\n".toList :=
    .of_length (by decide)
  obtain ⟨hok, _, hagain⟩ := parse_exact hascii hruns
  have hblank : AreBlank ['\t', '\n'] := ⟨by simp, by simp [isBlank]⟩
  have hdecimal : AreDecimal ['0', '0', '7'] := ⟨by simp, by simp⟩
  have hline : IsCountLine "WAIT" (7 : Nat) "Wait\t\n+007" :=
    ⟨['W', 'a', 'i', 't'], ['\t', '\n'], ['+', '0', '0', '7'], rfl, hblank, .plus hdecimal, rfl⟩
  have hread := (hok ⟨"Wait\t\n+007", .wait 7⟩).mpr
    ⟨rfl, .counted (by simp [countedKeywords]) (by decide) hline⟩
  have hspelling : (Command.wait 7).line = "WAIT 7" := by decide +kernel
  have hspelled := hagain _ hread
  rw [hspelling] at hspelled
  exact ⟨hascii, hruns, hread, hspelled⟩

end Lines

end Instruction

end Courier
