import Courier.Proofs.Instruction.Reading
import Courier.Proofs.Interpreter.Attempt
import Courier.Proofs.Json.Lookup
import Courier.Proofs.Text.Case

namespace Courier

/-- The condition that a line asks for. -/
def Instruction.condition? (line : String) : Option String :=
  (parse line).toOption.bind (·.command.condition?)

namespace Instruction

variable {line name : String}

theorem condition?_eq_some :
    condition? line = some name ↔ ∃ i, parse line = .ok i ∧ i.command = .branch name := by
  unfold condition?
  cases hp : parse line with
  | error f => simp [Except.toOption]
  | ok i => cases hc : i.command <;> simp [Except.toOption, Command.condition?, hc]

/-- A line asks in capitals. -/
theorem upper_condition? (h : condition? line = some name) : Text.upper name = name := by
  obtain ⟨i, hp, hc⟩ := condition?_eq_some.mp h
  obtain ⟨c, hr, hi⟩ := bind_eq_ok hp
  cases hi
  rw [show c = .branch name from hc] at hr
  obtain ⟨given, rfl⟩ := readCommand_branch hr
  exact Text.upper_upper given

end Instruction

namespace Interpreter

variable {σ : Type}

/-- Registers conditions one after another. -/
def registerAll (t : Interpreter) (given : List (String × Condition)) : Interpreter :=
  given.foldl (fun t m => t.register m.1 m.2) t

/-- Executes lines one after another, those after a failed line too. -/
def attempts (k : Controls σ) (t : Interpreter) (x : σ) : List String → List (Attempt σ) × Interpreter
  | [] => ([], t)
  | line :: lines =>
    let r := t.attempt k x line
    let s := r.2.attempts k r.1.agent lines
    (r.1 :: s.1, s.2)

/-- Both go through the lines alike, whoever carries them out: the same results and faults, the same
conditions evaluated, the same asked of the agent, and the same branches open at the end. -/
def Alike (t u : Interpreter) (lines : List String) : Prop :=
  ∀ (σ : Type) (k : Controls σ) (x : σ), (t.attempts k x lines).1 = (u.attempts k x lines).1 ∧
    (t.attempts k x lines).2.branches = (u.attempts k x lines).2.branches

/-- The same but for the conditions, and the same conditions under some names. -/
structure Agrees (t u : Interpreter) (names : String → Prop) : Prop where
  settings : t.settings = u.settings
  branches : t.branches = u.branches
  lookup : ∀ name, names name → Json.lookup t.conditions name = Json.lookup u.conditions name

section Register

variable (t : Interpreter) (given : List (String × Condition))

theorem settings_registerAll : (t.registerAll given).settings = t.settings := by
  induction given generalizing t with
  | nil => rfl
  | cons m given ih => exact ih (t.register m.1 m.2)

theorem branches_registerAll : (t.registerAll given).branches = t.branches := by
  induction given generalizing t with
  | nil => rfl
  | cons m given ih => exact ih (t.register m.1 m.2)

theorem lookup_register (t : Interpreter) (key name : String) (c : Condition) :
    Json.lookup (t.register key c).conditions name =
      if Text.upper key = name then some c else Json.lookup t.conditions name :=
  Json.lookup_insert t.conditions (Text.upper key) name c

theorem lookup_registerAll_other {name : String}
    (h : name ∉ given.map (fun m => Text.upper m.1)) :
    Json.lookup (t.registerAll given).conditions name = Json.lookup t.conditions name := by
  induction given generalizing t with
  | nil => rfl
  | cons m given ih =>
    rw [List.map_cons, List.mem_cons, not_or] at h
    have hrest := ih (t.register m.1 m.2) h.2
    rw [lookup_register, if_neg (Ne.symm h.1)] at hrest
    exact hrest

/-- What was registered is found under its name in capitals. -/
theorem lookup_registerAll {given : List (String × Condition)}
    (hn : (given.map (fun m => Text.upper m.1)).Nodup) {m : String × Condition} (hm : m ∈ given) :
    Json.lookup (t.registerAll given).conditions (Text.upper m.1) = some m.2 := by
  induction given generalizing t with
  | nil => cases hm
  | cons r given ih =>
    rw [List.map_cons, List.nodup_cons] at hn
    rcases List.mem_cons.mp hm with rfl | hm
    · have hother := lookup_registerAll_other (t.register m.1 m.2) given hn.1
      rw [lookup_register, if_pos rfl] at hother
      exact hother
    · exact ih (t.register r.1 r.2) hn.2 hm

end Register

section Agrees

variable {t u : Interpreter} {names : String → Prop} {token : Token} {scene : Scene} {line : String}

theorem Agrees.reporting (h : t.Agrees u names) : t.reporting.Agrees u.reporting names := by
  refine ⟨h.settings, h.branches, ?_⟩
  intro name hname
  rw [lookup_reporting, lookup_reporting, h.lookup name hname]

/-- A line opens in the same way on interpreters that agree on what it asks for. -/
theorem Agrees.openLine (h : t.Agrees u names) (token : Token) (scene : Scene)
    (hnames : ∀ name ∈ Instruction.condition? line, names name) :
    t.openLine token scene line = u.openLine token scene line := by
  have hskip : t.isSkipping = u.isSkipping := by
    unfold isSkipping
    rw [h.branches]
  have hopen (i : Instruction) (hp : Instruction.parse line = .ok i) :
      t.openInstruction scene i = u.openInstruction scene i := by
    unfold openInstruction
    split
    · next name hc =>
      have hl := h.lookup name (hnames name (Instruction.condition?_eq_some.mpr ⟨i, hp, hc⟩))
      unfold openBranch
      rw [hl, hskip, h.branches]
    · rw [h.branches]
    · unfold demand
      rw [hskip, h.branches, h.settings]
  unfold Interpreter.openLine
  cases hp : Instruction.parse line with
  | error f => rfl
  | ok i =>
    rw [ok_bind]
    cases token.check with
    | error f => rfl
    | ok _ => exact hopen i hp

/-- Only what a line asks for is evaluated for it. -/
theorem condition?_of_evaluated {name : String}
    (h : (t.reporting.openLine token scene line).evaluated = some name) :
    Instruction.condition? line = some name := by
  cases hp : Instruction.parse line with
  | error f =>
    rw [openLine_unread hp] at h
    cases h
  | ok i =>
    cases ht : token.check with
    | error f =>
      rw [openLine_refused (.cancelled hp ht)] at h
      cases h
    | ok _ =>
      rw [openLine_checked hp ht] at h
      unfold openInstruction at h
      split at h
      · next asked hc =>
        unfold openBranch at h
        rw [lookup_reporting] at h
        cases hl : Json.lookup t.conditions asked with
        | none =>
          rw [hl] at h
          cases h
        | some c =>
          rw [hl] at h
          dsimp only [Option.map_some] at h
          split at h
          · cases h
          · cases h
            exact Instruction.condition?_eq_some.mpr ⟨i, hp, hc⟩
      · split at h <;> cases h
      · split at h <;> cases h

theorem Agrees.evaluated (h : t.Agrees u names) (token : Token) (scene : Scene)
    (hnames : ∀ name ∈ Instruction.condition? line, names name) :
    t.evaluated token scene line = u.evaluated token scene line := by
  have ho := h.reporting.openLine token scene hnames
  unfold Interpreter.evaluated
  rw [ho]
  cases he : (u.reporting.openLine token scene line).evaluated with
  | none => rfl
  | some name => exact h.lookup name (hnames name (condition?_of_evaluated he))

theorem Agrees.attempt {σ : Type} {k : Controls σ} {x : σ} (h : t.Agrees u names)
    (hnames : ∀ name ∈ Instruction.condition? line, names name) :
    (t.attempt k x line).1 = (u.attempt k x line).1 ∧
      (t.attempt k x line).2.Agrees (u.attempt k x line).2 names := by
  have ho := h.openLine (k.token x) (k.scene x) hnames
  have he := h.evaluated (k.token x) (k.scene x) hnames
  unfold Interpreter.attempt
  rw [ho, he]
  cases (u.openLine (k.token x) (k.scene x) line).result with
  | error f => exact ⟨rfl, h⟩
  | ok o => exact ⟨rfl, h.settings, rfl, h.lookup⟩

/-- Interpreters that agree on all that some lines ask for go through them alike. -/
theorem Agrees.alike {lines : List String} (h : t.Agrees u names)
    (hnames : ∀ line ∈ lines, ∀ name ∈ Instruction.condition? line, names name) :
    t.Alike u lines := by
  intro σ k x
  induction lines generalizing t u x with
  | nil => exact ⟨rfl, h.branches⟩
  | cons line lines ih =>
    obtain ⟨hfirst, hagrees⟩ := h.attempt (k := k) (x := x) (hnames line (by simp))
    obtain ⟨hrest, hbranches⟩ := ih hagrees (fun l hl => hnames l (by simp [hl]))
      (t.attempt k x line).1.agent
    unfold attempts
    dsimp only
    rw [← hfirst]
    exact ⟨congrArg _ hrest, hbranches⟩

end Agrees

section Supplied

variable {σ : Type} {k : Controls σ} {x : σ} {t u : Interpreter} {line : String}

/-- A line changes the open branches only. -/
theorem conditions_attempt : (t.attempt k x line).2.conditions = t.conditions := by
  unfold Interpreter.attempt
  split <;> rfl

/-- A line that asks for a known condition evaluates it, or is skipped without a fault. -/
theorem attempt_known {name : String} {c : Condition}
    (hc : Instruction.condition? line = some name) (ht : (k.token x).check = .ok ())
    (hl : Json.lookup t.conditions name = some c) :
    (t.attempt k x line).1.evaluated = some c ∨ ∃ r, (t.attempt k x line).1.result = .ok r := by
  obtain ⟨i, hp, hi⟩ := Instruction.condition?_eq_some.mp hc
  cases hs : t.isSkipping with
  | true =>
    have ho : (t.openLine (k.token x) (k.scene x) line).result =
        .ok (i, .finished { StepResult.skip i with condition := some false },
          false :: t.branches) := by
      rw [openLine_checked hp ht, openInstruction_branch_skipped hs hi hl]
    rw [attempt_opened ho]
    exact .inr ⟨_, rfl⟩
  | false =>
    cases hv : c.test (k.scene x) with
    | error f =>
      have htrips : t.Trips (k.token x) (k.scene x) line c f := ⟨⟨i, name, hp, hi, hl⟩, ht, hs, hv⟩
      rw [attempt_tripped htrips]
      exact .inl rfl
    | ok value =>
      have ho : (t.openLine (k.token x) (k.scene x) line).result =
          .ok (i, .finished { StepResult.plain i with condition := some value },
            value :: t.branches) := by
        rw [openLine_checked hp ht, openInstruction_branch hs hi hl hv]
      rw [attempt_opened ho]
      exact .inr ⟨_, rfl⟩

theorem attempt_unknown {name : String} (hc : Instruction.condition? line = some name)
    (ht : (k.token x).check = .ok ()) (hl : Json.lookup t.conditions name = none) :
    ∃ f, (t.attempt k x line).1 = ⟨.error f, x, none, []⟩ := by
  obtain ⟨i, hp, hi⟩ := Instruction.condition?_eq_some.mp hc
  refine ⟨.instruction (.unknownCondition name i.text), ?_⟩
  rw [attempt_refused (.unknownCondition hp ht hi hl)]

/-- One interpreter has the conditions as they were supplied, the other one has them registered. -/
structure Supplied (given : List (String × Condition)) (t u : Interpreter) : Prop where
  agrees : t.Agrees u (fun name => name ∈ given.map (·.1) ∧ Text.upper name = name)
  supplied : t.conditions = given
  registered : ∀ m ∈ given, Json.lookup u.conditions (Text.upper m.1) = some m.2

variable {given : List (String × Condition)}

theorem supplied_make (settings : WaitSettings) (hne : given ≠ [])
    (hn : (given.map (fun m => Text.upper m.1)).Nodup) :
    Supplied given (make settings given) ((make settings []).registerAll given) := by
  have hconditions : (make settings given).conditions = given := by
    simp [make, Condition.table, hne]
  have hkeys : (given.map (·.1)).Nodup := by
    have hmap : given.map (fun m => Text.upper m.1) = (given.map (·.1)).map Text.upper := by simp
    rw [hmap] at hn
    exact hn.of_map
  refine ⟨⟨?_, ?_, ?_⟩, hconditions, fun m hm => lookup_registerAll _ hn hm⟩
  · rw [settings_registerAll]
    rfl
  · rw [branches_registerAll]
    rfl
  · rintro name ⟨hname, hupper⟩
    obtain ⟨m, hm, rfl⟩ := List.mem_map.mp hname
    have hregistered := lookup_registerAll (make settings []) hn hm
    rw [hupper] at hregistered
    rw [hconditions, Json.lookup_of_mem given hkeys hm, hregistered]

theorem Supplied.attempt (h : Supplied given t u)
    (hnames : ∀ name ∈ Instruction.condition? line, name ∈ given.map (·.1)) :
    (t.attempt k x line).1 = (u.attempt k x line).1 ∧
      Supplied given (t.attempt k x line).2 (u.attempt k x line).2 := by
  obtain ⟨hfirst, hagrees⟩ := h.agrees.attempt (k := k) (x := x)
    (fun name hname => ⟨hnames name hname, Instruction.upper_condition? hname⟩)
  refine ⟨hfirst, hagrees, ?_, ?_⟩
  · rw [conditions_attempt]
    exact h.supplied
  · rw [conditions_attempt]
    exact h.registered

/-- What a line asks for was supplied in capitals, if it does not tell the two apart. -/
theorem Supplied.name_mem (h : Supplied given t u) (ht : (k.token x).check = .ok ())
    (hsame : (t.attempt k x line).1 = (u.attempt k x line).1) {name : String}
    (hc : Instruction.condition? line = some name)
    (hname : name ∈ given.map (fun m => Text.upper m.1)) : name ∈ given.map (·.1) := by
  by_contra hmissing
  obtain ⟨m, hm, rfl⟩ := List.mem_map.mp hname
  have hnone : Json.lookup t.conditions (Text.upper m.1) = none := by
    rw [h.supplied]
    exact (Json.lookup_eq_none_iff given _).mpr hmissing
  -- The one refuses the line and evaluates nothing, the other evaluates or skips it.
  obtain ⟨f, hf⟩ := attempt_unknown hc ht hnone
  rw [hf] at hsame
  rcases attempt_known hc ht (h.registered m hm) with he | ⟨r, hr⟩
  · rw [← hsame] at he
    cases he
  · rw [← hsame] at hr
    cases hr

/-- So it is with the lines of a run that does not tell the two apart. -/
theorem Supplied.names_mem {lines : List String} (h : Supplied given t u)
    (hk : ∀ x, (k.token x).check = .ok ())
    (hasked : ∀ line ∈ lines, ∀ name ∈ Instruction.condition? line,
      name ∈ given.map (fun m => Text.upper m.1))
    (hsame : (t.attempts k x lines).1 = (u.attempts k x lines).1) :
    ∀ line ∈ lines, ∀ name ∈ Instruction.condition? line, name ∈ given.map (·.1) := by
  induction lines generalizing t u x with
  | nil => simp
  | cons line lines ih =>
    unfold attempts at hsame
    obtain ⟨hfirst, hrest⟩ := List.cons.inj hsame
    have hline : ∀ name ∈ Instruction.condition? line, name ∈ given.map (·.1) :=
      fun name hname => h.name_mem (hk x) hfirst hname (hasked line (by simp) name hname)
    -- The line asks for a name that both know, so it leaves them supplied and registered alike.
    obtain ⟨_, hnext⟩ := h.attempt (k := k) (x := x) hline
    rw [← hfirst] at hrest
    have hlines := ih hnext (fun l hl => hasked l (by simp [hl])) hrest
    exact List.forall_mem_cons.mpr ⟨hline, hlines⟩

/-- An interpreter made with some conditions and one on which they were registered go through lines
that ask for them alike, if and only if each condition that is asked for was supplied under its name
in capitals. -/
theorem supplied_alike_iff (settings : WaitSettings) (hne : given ≠ [])
    (hn : (given.map (fun m => Text.upper m.1)).Nodup) {lines : List String}
    (hasked : ∀ line ∈ lines, ∀ name ∈ Instruction.condition? line,
      name ∈ given.map (fun m => Text.upper m.1)) :
    (make settings given).Alike ((make settings []).registerAll given) lines ↔
      ∀ line ∈ lines, ∀ name ∈ Instruction.condition? line, name ∈ given.map (·.1) := by
  have hmade := supplied_make settings hne hn
  constructor
  · intro halike
    exact hmade.names_mem (fun _ => rfl) hasked (halike Nat recalled 0).1
  · intro hnames
    exact hmade.agrees.alike fun line hline name hname =>
      ⟨hnames line hline name hname, Instruction.upper_condition? hname⟩

theorem supplied_alike_iff_night :
    let given : List (String × Condition) := [("NIGHT", .constant true), ("day", .constant false)]
    given ≠ [] ∧ (given.map (fun m => Text.upper m.1)).Nodup ∧
      (make .standard given).Alike ((make .standard []).registerAll given)
        ["if Night", "END_IF", "PICKUP"] := by
  intro given
  have hne : given ≠ [] := by simp [given]
  have hn : (given.map (fun m => Text.upper m.1)).Nodup := by decide +kernel
  have hasked : ∀ line ∈ ["if Night", "END_IF", "PICKUP"],
      ∀ name ∈ Instruction.condition? line, name ∈ given.map (fun m => Text.upper m.1) := by
    decide +kernel
  exact ⟨hne, hn, (supplied_alike_iff .standard hne hn hasked).mpr (by decide +kernel)⟩

/-- A condition supplied in small letters is not found. -/
theorem supplied_small_not_alike :
    ¬ (make .standard [("night", .constant true)]).Alike
      ((make .standard []).registerAll [("night", .constant true)]) ["IF NIGHT"] := by
  intro halike
  have hsame := (halike Nat recalled 0).2
  have hmade : ((make .standard [("night", .constant true)]).attempts recalled 0
      ["IF NIGHT"]).2.branches = [] := rfl
  rw [hmade] at hsame
  cases hsame

end Supplied

end Interpreter

end Courier
