import Mathlib.Data.List.Nodup
import Courier.Instruction.Parser
import Courier.Proofs.Text.Digits

namespace Courier

namespace Text

variable {c : Char} {p : Char → Bool} {cs : List Char}

theorem dropWhile_eq_self (h : ∀ c ∈ cs.head?, p c = false) : cs.dropWhile p = cs := by
  cases cs with
  | nil => rfl
  | cons c cs => rw [List.dropWhile_cons_of_neg (by simp [h c (by simp)])]

/-- The blanks beyond ASCII. -/
def farBlanks : List Nat :=
  [0x85, 0xa0, 0x1680, 0x2000, 0x2001, 0x2002, 0x2003, 0x2004, 0x2005, 0x2006, 0x2007, 0x2008,
    0x2009, 0x200a, 0x2028, 0x2029, 0x202f, 0x205f, 0x3000]

theorem mem_farBlanks (h : isBlank c) (hc : 128 ≤ c.toNat) : c.toNat ∈ farBlanks := by
  simp only [isBlank, Bool.or_eq_true, Bool.and_eq_true, decide_eq_true_eq] at h
  simp only [farBlanks, List.mem_cons, List.not_mem_nil, or_false]
  omega

/-- No digit of any script is a blank. -/
theorem isBlank_of_digit (h : (digitValue? c).isSome) : isBlank c = false := by
  cases hb : isBlank c with
  | false => rfl
  | true =>
    by_cases hc : c.toNat < 128
    · have hd : c.isDigit := by simpa [digitValue?, hc] using h
      have hn := toNat_of_isDigit hd
      simp only [isBlank, Bool.or_eq_true, Bool.and_eq_true, decide_eq_true_eq] at hb
      omega
    · have hscripts : ∀ n ∈ farBlanks,
          digitZeros.find? (fun z => z ≤ n && n < z+10) = none := by decide +kernel
      have hnone := hscripts c.toNat (mem_farBlanks hb (by omega))
      simp [digitValue?, hc, hnone] at h

end Text

namespace Instruction

open Text

/-- A word of a line names an operation in some letter case. -/
def Spells (o : Opcode) (word : List Char) : Prop :=
  word.map sameLetter.fold = o.text.toList.map sameLetter.fold

def AreBlank (cs : List Char) : Prop :=
  cs ≠ [] ∧ ∀ c ∈ cs, isBlank c

/-- A sign, which may be left out, and whether it is a minus. -/
inductive IsSign : Bool → List Char → Prop
  | absent : IsSign false []
  | plus : IsSign false ['+']
  | minus : IsSign true ['-']

/-- Digits of any script and their values. -/
def AreDigits (digits : List Char) (ds : List Nat) : Prop :=
  digits.mapM digitValue? = some ds ∧ ds ≠ []

/-- A word, blanks and a count. -/
def IsCounted (o : Opcode) (text : String) (word : List Char) (negative : Bool) (ds : List Nat) :
    Prop :=
  ∃ blanks sign digits, Spells o word ∧ AreBlank blanks ∧ IsSign negative sign ∧
    AreDigits digits ds ∧ text.toList = word ++ (blanks ++ (sign ++ digits))

/-- The word of branches, blanks and an identifier. -/
def IsBranch (text : String) (name : List Char) : Prop :=
  ∃ word blanks, Spells .branch word ∧ AreBlank blanks ∧ isIdentifier name ∧
    text.toList = word ++ (blanks ++ name)

section Parts

variable {cs rest word : List Char} {negative : Bool} {ds : List Nat} {c : Char}

theorem takeWord_append {letters : List Char} (read rest : List Char)
    (h : word.map sameLetter.fold = letters.map sameLetter.fold) :
    takeWord read letters (word ++ rest) = some (read.reverse ++ word, rest) := by
  induction letters generalizing read word with
  | nil =>
    cases word with
    | nil => simp [takeWord]
    | cons c word => cases h
  | cons l letters ih =>
    cases word with
    | nil => cases h
    | cons c word =>
      obtain ⟨hc, hword⟩ := List.cons.inj h
      have hl : sameLetter l c = true := by
        rw [sameLetter, hc]
        simp
      simp [takeWord, hl, ih (c :: read) hword]

theorem takeWord_some {read letters m : List Char} (h : takeWord read letters cs = some (m, rest)) :
    ∃ word, word.map sameLetter.fold = letters.map sameLetter.fold ∧ m = read.reverse ++ word ∧
      cs = word ++ rest := by
  induction letters generalizing read cs with
  | nil =>
    cases h
    exact ⟨[], rfl, (List.append_nil _).symm, rfl⟩
  | cons l letters ih =>
    cases cs with
    | nil => cases h
    | cons c cs =>
      unfold takeWord at h
      split at h
      · next hl =>
        obtain ⟨word, hword, rfl, rfl⟩ := ih h
        have hc : sameLetter.fold l = sameLetter.fold c := by simpa [sameLetter] using hl
        exact ⟨c :: word, by simp [hc, hword], by simp, rfl⟩
      · cases h

theorem takeWord_eq_some {o : Opcode} :
    takeWord [] o.text.toList cs = some (word, rest) ↔ Spells o word ∧ cs = word ++ rest := by
  constructor
  · intro h
    obtain ⟨m, hm, rfl, rfl⟩ := takeWord_some h
    exact ⟨hm, rfl⟩
  · rintro ⟨hw, rfl⟩
    exact takeWord_append [] rest hw

theorem skipBlanks?_eq_some :
    skipBlanks? cs = some rest ↔
      ∃ blanks, AreBlank blanks ∧ cs = blanks ++ rest ∧ ∀ c ∈ rest.head?, isBlank c = false := by
  constructor
  · intro h
    cases cs with
    | nil => cases h
    | cons c cs =>
      by_cases hc : isBlank c
      · rw [skipBlanks?, if_pos hc] at h
        cases h
        have hall : ∀ d ∈ c :: cs.takeWhile isBlank, isBlank d :=
          List.forall_mem_cons.mpr ⟨hc, List.all_eq_true.mp List.all_takeWhile⟩
        refine ⟨c :: cs.takeWhile isBlank, ⟨by simp, hall⟩, by simp, ?_⟩
        intro d hd
        have hhead := List.head?_dropWhile_not isBlank cs
        rw [hd] at hhead
        simpa using hhead
      · rw [skipBlanks?, if_neg hc] at h
        cases h
  · rintro ⟨blanks, ⟨hne, hall⟩, rfl, hrest⟩
    cases blanks with
    | nil => exact absurd rfl hne
    | cons c blanks =>
      obtain ⟨hc, hblanks⟩ := List.forall_mem_cons.mp hall
      rw [List.cons_append, skipBlanks?, if_pos hc, List.dropWhile_append_of_pos hblanks,
        dropWhile_eq_self hrest]

theorem AreDigits.head (h : AreDigits cs ds) :
    ∃ c digits, cs = c :: digits ∧ (digitValue? c).isSome := by
  obtain ⟨hm, hne⟩ := h
  cases cs with
  | nil =>
    cases hm
    exact absurd rfl hne
  | cons c digits =>
    refine ⟨c, digits, rfl, ?_⟩
    cases hv : digitValue? c with
    | some d => rfl
    | none =>
      rw [List.mapM_cons, hv] at hm
      cases hm

theorem takeSign_digit (h : (digitValue? c).isSome) :
    Number.takeSign (c :: cs) = (false, c :: cs) := by
  unfold Number.takeSign
  split
  · next he =>
    cases he
    cases h
  · next he =>
    cases he
    cases h
  · rfl

theorem signedDigits?_eq_some :
    signedDigits? cs = some (negative, ds) ↔
      ∃ sign digits, IsSign negative sign ∧ AreDigits digits ds ∧ cs = sign ++ digits := by
  have hread (sign digits : List Char)
      (hs : Number.takeSign (sign ++ digits) = (negative, digits)) (hd : AreDigits digits ds) :
      signedDigits? (sign ++ digits) = some (negative, ds) := by
    obtain ⟨hm, hne⟩ := hd
    unfold signedDigits?
    rw [hs]
    dsimp only
    rw [hm]
    cases ds with
    | nil => exact absurd rfl hne
    | cons d ds => rfl
  constructor
  · intro h
    have hsign : ∃ sign, IsSign (Number.takeSign cs).1 sign ∧
        cs = sign ++ (Number.takeSign cs).2 := by
      unfold Number.takeSign
      split
      · exact ⟨_, .minus, rfl⟩
      · exact ⟨_, .plus, rfl⟩
      · exact ⟨_, .absent, rfl⟩
    obtain ⟨sign, hs, hcs⟩ := hsign
    unfold signedDigits? at h
    dsimp only at h
    split at h
    · cases h
    · next ds' hne hm =>
      cases h
      exact ⟨sign, _, hs, ⟨hm, hne⟩, hcs⟩
    · cases h
  · rintro ⟨sign, digits, hs, hd, rfl⟩
    refine hread sign digits ?_ hd
    cases hs with
    | absent =>
      obtain ⟨c, cs, rfl, hc⟩ := hd.head
      exact takeSign_digit hc
    | plus => rfl
    | minus => rfl

end Parts

/-- A text that begins with the word of an operation. -/
def Begins (o : Opcode) (text : String) : Prop :=
  ∃ word rest, Spells o word ∧ text.toList = word ++ rest

/-- What a counted line is read as. -/
def ofCounted (text : String) (command : Nat → Command) (word : List Char) (negative : Bool)
    (ds : List Nat) : Except Fault Command := do
  checkWord (command 0).opcode.text word
  return command (← readCount (command 0).opcode text negative ds)

/-- What a bare line is read as. -/
def ofBare (command : Command) (word : List Char) : Except Fault Command := do
  checkWord command.opcode.text word
  return command

section Forms

variable {text : String} {word : List Char} {negative : Bool} {ds : List Nat}
  {r : Except Fault Command}

theorem readCounted?_eq_some {command : Nat → Command} :
    readCounted? text command = some r ↔
      ∃ word negative ds, IsCounted (command 0).opcode text word negative ds ∧
        r = ofCounted text command word negative ds := by
  unfold readCounted?
  simp only [Option.bind_eq_bind, Option.bind_eq_some_iff, Prod.exists, takeWord_eq_some,
    skipBlanks?_eq_some, signedDigits?_eq_some]
  constructor
  · rintro ⟨word, rest, ⟨hw, ht⟩, cs, ⟨blanks, hb, rfl, _⟩, negative, ds,
      ⟨sign, digits, hs, hd, rfl⟩, hr⟩
    exact ⟨word, negative, ds, ⟨blanks, sign, digits, hw, hb, hs, hd, ht⟩,
      (Option.some.inj hr).symm⟩
  · rintro ⟨word, negative, ds, ⟨blanks, sign, digits, hw, hb, hs, hd, ht⟩, hr⟩
    rw [hr]
    -- The run of blanks ends where it should: a count begins with a sign or a digit.
    have hcount : ∀ c ∈ (sign ++ digits).head?, isBlank c = false := by
      cases hs with
      | absent =>
        obtain ⟨c, cs, rfl, hc⟩ := hd.head
        simpa using isBlank_of_digit hc
      | plus => simp [show isBlank '+' = false by decide]
      | minus => simp [show isBlank '-' = false by decide]
    exact ⟨word, _, ⟨hw, ht⟩, _, ⟨blanks, hb, rfl, hcount⟩, negative, ds,
      ⟨sign, digits, hs, hd, rfl⟩, rfl⟩

theorem readBare?_eq_some {command : Command} :
    readBare? text command = some r ↔
      Spells command.opcode text.toList ∧ r = ofBare command text.toList := by
  unfold readBare?
  simp only [Option.bind_eq_bind, Option.bind_eq_some_iff, Prod.exists, takeWord_eq_some]
  constructor
  · rintro ⟨word, rest, ⟨hw, ht⟩, h⟩
    split at h
    · next hrest =>
      rw [List.isEmpty_iff.mp hrest, List.append_nil] at ht
      rw [ht]
      exact ⟨hw, (Option.some.inj h).symm⟩
    · cases h
  · rintro ⟨hw, hr⟩
    rw [hr]
    exact ⟨text.toList, [], ⟨hw, (List.append_nil _).symm⟩, rfl⟩

theorem isBlank_of_isIdentifierStart {c : Char} (h : isIdentifierStart c) : isBlank c = false := by
  cases hb : isBlank c with
  | false => rfl
  | true =>
    by_cases hc : c.toNat < 128
    · -- Blanks of ASCII are control characters and the space.
      have hsmall : ∀ n < 33, isIdentifierStart (Char.ofNat n) = false := by decide +kernel
      have hn : c.toNat < 33 := by
        simp only [isBlank, Bool.or_eq_true, Bool.and_eq_true, decide_eq_true_eq] at hb
        omega
      have hstart := hsmall c.toNat hn
      rw [Char.ofNat_toNat, h] at hstart
      cases hstart
    · have hletters : ∀ n ∈ farBlanks, isIdentifierStart (Char.ofNat n) = false := by
        decide +kernel
      have hstart := hletters c.toNat (mem_farBlanks hb (by omega))
      rw [Char.ofNat_toNat, h] at hstart
      cases hstart

theorem readBranch?_eq_some {c : Command} :
    readBranch? text = some c ↔
      ∃ name, IsBranch text name ∧ c = .branch (upper (String.ofList name)) := by
  unfold readBranch?
  simp only [Option.bind_eq_bind, Option.bind_eq_some_iff, Prod.exists, takeWord_eq_some,
    skipBlanks?_eq_some]
  constructor
  · rintro ⟨word, rest, ⟨hw, ht⟩, name, ⟨blanks, hb, rfl, _⟩, h⟩
    split at h
    · next hname => exact ⟨name, ⟨word, blanks, hw, hb, hname, ht⟩, (Option.some.inj h).symm⟩
    · cases h
  · rintro ⟨name, ⟨word, blanks, hw, hb, hname, ht⟩, rfl⟩
    -- The run of blanks ends where it should: an identifier does not begin with a blank.
    have hfirst : ∀ c ∈ name.head?, isBlank c = false := by
      cases name with
      | nil => simp
      | cons c cs =>
        have hc : isIdentifierStart c = true := by
          rw [isIdentifier, Bool.and_eq_true] at hname
          exact hname.1
        simpa using isBlank_of_isIdentifierStart hc
    exact ⟨word, _, ⟨hw, ht⟩, name, ⟨blanks, hb, rfl, hfirst⟩, by rw [if_pos hname]⟩

/-- All that a line can ask for. -/
def operations : List Opcode :=
  [.moveForward, .moveBackward, .turnLeft, .turnRight, .pickup, .dropoff, .wait, .branch, .endBranch]

theorem mem_operations (o : Opcode) : o ∈ operations := by
  cases o <;> decide

/-- No operation is named by the beginning of the name of another one. -/
theorem opcode_of_initial {o o' : Opcode}
    (h : o.text.toList.map sameLetter.fold <+: o'.text.toList.map sameLetter.fold) : o = o' := by
  have hall : ∀ o ∈ operations, ∀ o' ∈ operations,
      o.text.toList.map sameLetter.fold <+: o'.text.toList.map sameLetter.fold → o = o' := by
    decide +kernel
  exact hall o (mem_operations o) o' (mem_operations o') h

/-- A text begins with the word of one operation at most. -/
theorem Begins.unique {o o' : Opcode} (h : Begins o text) (h' : Begins o' text) : o = o' := by
  have hbegins {o : Opcode} (h : Begins o text) :
      o.text.toList.map sameLetter.fold <+: text.toList.map sameLetter.fold := by
    obtain ⟨word, rest, hw, ht⟩ := h
    rw [ht, ← hw, List.map_append]
    exact List.prefix_append _ _
  rcases List.prefix_or_prefix_of_prefix (hbegins h) (hbegins h') with hle | hle
  · exact opcode_of_initial hle
  · exact (opcode_of_initial hle).symm

theorem IsCounted.begins {o : Opcode} (h : IsCounted o text word negative ds) : Begins o text := by
  obtain ⟨blanks, sign, digits, hw, _, _, _, ht⟩ := h
  exact ⟨word, _, hw, ht⟩

theorem IsBranch.begins {name : List Char} (h : IsBranch text name) : Begins .branch text := by
  obtain ⟨word, blanks, hw, _, _, ht⟩ := h
  exact ⟨word, _, hw, ht⟩

theorem Spells.begins {o : Opcode} (h : Spells o text.toList) : Begins o text :=
  ⟨text.toList, [], h, (List.append_nil _).symm⟩

/-- No two commands have the same operation. -/
theorem opcodes_nodup :
    (Command.counted.map (fun command => (command 0).opcode) ++
      Command.bare.map Command.opcode).Nodup := by
  decide

/-- Branches have an operation of their own. -/
theorem counted_ne_branch {a : Nat → Command} (ha : a ∈ Command.counted) :
    (a 0).opcode ≠ .branch := by
  simp only [Command.counted, List.mem_cons, List.not_mem_nil, or_false] at ha
  rcases ha with rfl | rfl | rfl <;> decide

theorem bare_ne_branch : ∀ a ∈ Command.bare, a.opcode ≠ .branch := by
  decide

theorem counted_unique {a b : Nat → Command} (ha : a ∈ Command.counted) (hb : b ∈ Command.counted)
    (h : (a 0).opcode = (b 0).opcode) : a = b :=
  List.inj_on_of_nodup_map opcodes_nodup.of_append_left ha hb h

theorem bare_unique {a b : Command} (ha : a ∈ Command.bare) (hb : b ∈ Command.bare)
    (h : a.opcode = b.opcode) : a = b :=
  List.inj_on_of_nodup_map opcodes_nodup.of_append_right ha hb h

theorem counted_ne_bare {a : Nat → Command} {b : Command} (ha : a ∈ Command.counted)
    (hb : b ∈ Command.bare) : (a 0).opcode ≠ b.opcode := by
  intro h
  have hcounted : (a 0).opcode ∈ Command.counted.map (fun command => (command 0).opcode) :=
    List.mem_map.mpr ⟨a, ha, rfl⟩
  have hbare : (a 0).opcode ∈ Command.bare.map Command.opcode := List.mem_map.mpr ⟨b, hb, h.symm⟩
  exact List.disjoint_of_nodup_append opcodes_nodup hcounted hbare

theorem findSome?_of_unique {α β : Type} {f : α → Option β} {l : List α} {a : α} {b : β}
    (ha : a ∈ l) (hb : f a = some b) (hu : ∀ x ∈ l, ∀ y, f x = some y → x = a) :
    l.findSome? f = some b := by
  cases h : l.findSome? f with
  | none =>
    rw [List.findSome?_eq_none_iff.mp h a ha] at hb
    cases hb
  | some y =>
    obtain ⟨x, hx, hy⟩ := List.exists_of_findSome?_eq_some h
    rw [hu x hx y hy, hb] at hy
    exact hy.symm

theorem counted_none (h : ∀ command ∈ Command.counted, ¬Begins (command 0).opcode text) :
    Command.counted.findSome? (readCounted? text) = none := by
  rw [List.findSome?_eq_none_iff]
  intro command hc
  cases hread : readCounted? text command with
  | none => rfl
  | some r =>
    obtain ⟨_, _, _, hform, _⟩ := readCounted?_eq_some.mp hread
    exact absurd hform.begins (h command hc)

theorem bare_none (h : ∀ command ∈ Command.bare, ¬Begins command.opcode text) :
    Command.bare.findSome? (readBare? text) = none := by
  rw [List.findSome?_eq_none_iff]
  intro command hc
  cases hread : readBare? text command with
  | none => rfl
  | some r =>
    obtain ⟨hform, _⟩ := readBare?_eq_some.mp hread
    exact absurd hform.begins (h command hc)

theorem readCommand_of_counted {command : Nat → Command} (hc : command ∈ Command.counted)
    (h : IsCounted (command 0).opcode text word negative ds) :
    readCommand text = ofCounted text command word negative ds := by
  have hr : readCounted? text command = some (ofCounted text command word negative ds) :=
    readCounted?_eq_some.mpr ⟨word, negative, ds, h, rfl⟩
  -- The commands are tried one after another, but no other one can match.
  have hunique : ∀ other ∈ Command.counted, ∀ r, readCounted? text other = some r →
      other = command := by
    intro other hother r hread
    obtain ⟨_, _, _, hform, _⟩ := readCounted?_eq_some.mp hread
    exact counted_unique hother hc (hform.begins.unique h.begins)
  unfold readCommand
  rw [findSome?_of_unique hc hr hunique]

theorem readCommand_of_bare {command : Command} (hc : command ∈ Command.bare)
    (h : Spells command.opcode text.toList) :
    readCommand text = ofBare command text.toList := by
  have hcounted : Command.counted.findSome? (readCounted? text) = none :=
    counted_none fun other hother hbegins =>
      counted_ne_bare hother hc (hbegins.unique h.begins)
  have hr : readBare? text command = some (ofBare command text.toList) :=
    readBare?_eq_some.mpr ⟨h, rfl⟩
  have hunique : ∀ other ∈ Command.bare, ∀ r, readBare? text other = some r →
      other = command := by
    intro other hother r hread
    obtain ⟨hform, _⟩ := readBare?_eq_some.mp hread
    exact bare_unique hother hc (hform.begins.unique h.begins)
  unfold readCommand
  rw [hcounted]
  dsimp only
  rw [findSome?_of_unique hc hr hunique]

theorem readCommand_of_branch {name : List Char} (h : IsBranch text name) :
    readCommand text = .ok (.branch (upper (String.ofList name))) := by
  have hcounted : Command.counted.findSome? (readCounted? text) = none :=
    counted_none fun command hc hbegins => counted_ne_branch hc (hbegins.unique h.begins)
  have hbare : Command.bare.findSome? (readBare? text) = none :=
    bare_none fun command hc hbegins => bare_ne_branch command hc (hbegins.unique h.begins)
  unfold readCommand
  rw [hcounted, hbare]
  dsimp only
  rw [readBranch?_eq_some.mpr ⟨name, h, rfl⟩]

/-- A text is read as a counted line, as a bare one or as a branch, or it is not read. -/
theorem readCommand_forms (text : String) :
    (∃ command ∈ Command.counted, ∃ word negative ds,
        IsCounted (command 0).opcode text word negative ds ∧
          readCommand text = ofCounted text command word negative ds) ∨
      (∃ command ∈ Command.bare, Spells command.opcode text.toList ∧
        readCommand text = ofBare command text.toList) ∨
      (∃ name, IsBranch text name ∧
        readCommand text = .ok (.branch (upper (String.ofList name)))) ∨
      readCommand text = .error (.instruction (.unknown text)) := by
  cases hcounted : Command.counted.findSome? (readCounted? text) with
  | some r =>
    obtain ⟨command, hc, hr⟩ := List.exists_of_findSome?_eq_some hcounted
    obtain ⟨word, negative, ds, hform, _⟩ := readCounted?_eq_some.mp hr
    exact .inl ⟨command, hc, word, negative, ds, hform, readCommand_of_counted hc hform⟩
  | none =>
    cases hbare : Command.bare.findSome? (readBare? text) with
    | some r =>
      obtain ⟨command, hc, hr⟩ := List.exists_of_findSome?_eq_some hbare
      obtain ⟨hform, _⟩ := readBare?_eq_some.mp hr
      exact .inr (.inl ⟨command, hc, hform, readCommand_of_bare hc hform⟩)
    | none =>
      cases hbranch : readBranch? text with
      | some c =>
        obtain ⟨name, hform, _⟩ := readBranch?_eq_some.mp hbranch
        exact .inr (.inr (.inl ⟨name, hform, readCommand_of_branch hform⟩))
      | none =>
        refine .inr (.inr (.inr ?_))
        unfold readCommand
        rw [hcounted, hbare]
        dsimp only
        rw [hbranch]

end Forms

end Instruction

end Courier
