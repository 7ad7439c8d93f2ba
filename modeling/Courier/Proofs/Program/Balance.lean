import Courier.Proofs.Interpreter.Branching
import Courier.Proofs.Program.Compilation
import Courier.Proofs.Queue.Branches

namespace Courier

section Depth

variable {e : Episode} {es : List Episode} {branches : List Bool}

/-- A line changes the number of open branches by its weight. -/
theorem Episode.Leaves.depth (h : e.Leaves branches) :
    (branches.length : Int) = e.before.branches.length + Line.weight (.text e.line) := by
  obtain ⟨i, d, hread, ho, _⟩ := h.opens
  have hp : Instruction.parse (Json.Value.text e.line).plain = .ok i := by
    rw [Json.Value.plain_text]
    exact hread
  have hkeep (hc : i.command.opcode.isControl = false) :
      Line.weight (.text e.line) = 0 := Line.weight_of_body hp hc
  generalize e.evaluated = v at ho
  have hreport : e.before.reporting.branches = e.before.branches := rfl
  cases ho with
  | branch _ hc =>
    rw [Line.weight_of_branch hp hc, List.length_cons, hreport]
    omega
  | branchSkipped _ hc =>
    rw [Line.weight_of_branch hp hc, List.length_cons, hreport]
    omega
  | endBranch hc hb =>
    rw [hreport] at hb
    rw [Line.weight_of_endBranch hp hc, hb, List.length_cons]
    omega
  | skipped _ hc => rw [hkeep hc, hreport, add_zero]
  | act _ ha => rw [hkeep (Command.isControl_of_action ha), hreport, add_zero]
  | wait _ hc _ => rw [hkeep (by rw [hc]; rfl), hreport, add_zero]

theorem Executes.depth (h : Executes es branches) :
    (branches.length : Int) = Line.weigh (es.map (fun e => .text e.line)) := by
  induction h with
  | nil => rfl
  | concat h he ih =>
    rw [he.depth, ih, List.map_append, Line.weigh_append, List.map_singleton, Line.weigh_singleton]

/-- Only a line that closes a branch can miss one, and only if none is open. -/
theorem Interpreter.openLine_unopened {t : Interpreter} {token : Token} {scene : Scene}
    {line text : String}
    (ht : ∀ m ∈ t.conditions, m.2.test scene ≠ .error (.instruction (.unopened text)))
    (h : (t.openLine token scene line).result = .error (.instruction (.unopened text))) :
    t.branches = [] ∧ Line.weight (.text line) = -1 := by
  unfold openLine at h
  split at h
  · next i hr =>
    obtain ⟨k, hread, hr⟩ := bind_eq_ok hr
    obtain ⟨_, _, hr⟩ := bind_eq_ok hr
    cases hr
    have hp : Instruction.parse (Json.Value.text line).plain = .ok i := by
      rw [Json.Value.plain_text]
      exact hread
    unfold openInstruction at h
    split at h
    · next name _ =>
      unfold openBranch at h
      split at h
      · cases h
      · next c hl =>
        obtain ⟨m, hm, rfl⟩ := Json.mem_of_lookup hl
        split at h
        · cases h
        · rcases bind_eq_error h with hv | ⟨_, _, h⟩
          · exact absurd hv (ht m hm)
          · cases h
    · next hc =>
      refine ⟨?_, Line.weight_of_endBranch hp hc⟩
      cases hb : t.branches with
      | nil => rfl
      | cons b branches =>
        rw [hb] at h
        cases h
    · split at h
      · cases h
      · cases hd : t.demand i with
        | ok d =>
          rw [hd] at h
          cases h
        | error f =>
          rw [hd] at h
          obtain ⟨n, rfl⟩ := demand_error hd
          cases h
  · next f hr =>
    cases h
    rcases bind_eq_error hr with hp | ⟨i, _, hr⟩
    · exact (Instruction.parse_error hp).elim
    · rcases bind_eq_error hr with hcheck | ⟨_, _, hr⟩
      · unfold Token.check at hcheck
        split at hcheck <;> cases hcheck
      · cases hr

end Depth

namespace Program

open Text Compiler

/-- Whether a line opens a branch. -/
def opensBranch (line : String) : Bool :=
  match Instruction.parse line with
  | .ok ⟨_, .branch _⟩ => true
  | _ => false

def closesBranch (line : String) : Bool :=
  match Instruction.parse line with
  | .ok ⟨_, .endBranch⟩ => true
  | _ => false

/-- The branches that lines open and do not close. -/
def surplus (lines : List String) : Int := Line.weigh (lines.map .text)

/-- Lines that close no more branches than are open, and in the end all of them. -/
structure AreBalanced (lines : List String) : Prop where
  opened : ∀ k, 0 ≤ surplus (lines.take k)
  closed : surplus lines = 0

section Surplus

variable {xs ys lines : List String} {line : String}

theorem surplus_append (xs ys : List String) : surplus (xs ++ ys) = surplus xs + surplus ys := by
  rw [surplus, List.map_append, Line.weigh_append]
  rfl

theorem surplus_singleton (line : String) : surplus [line] = Line.weight (.text line) :=
  Line.weigh_singleton _

theorem weight_eq (line : String) :
    Line.weight (.text line) = (opensBranch line).toInt - (closesBranch line).toInt := by
  unfold Line.weight opensBranch closesBranch
  rw [Json.Value.plain_text]
  cases Instruction.parse line with
  | error f => rfl
  | ok i =>
    obtain ⟨text, command⟩ := i
    cases command <;> rfl

theorem surplus_eq (lines : List String) :
    surplus lines = (lines.countP opensBranch : Int) - lines.countP closesBranch := by
  induction lines with
  | nil => rfl
  | cons line lines ih =>
    have hcons : surplus (line :: lines) = Line.weight (.text line) + surplus lines := rfl
    rw [hcons, ih, weight_eq, List.countP_cons, List.countP_cons]
    cases opensBranch line <;> cases closesBranch line <;> simp <;> omega

theorem executes_surplus {es : List Episode} {branches : List Bool} (h : Executes es branches) :
    (branches.length : Int) = surplus (es.map (·.line)) := by
  rw [h.depth, surplus, List.map_map]
  rfl

theorem AreBalanced.closed_of_executes (h : AreBalanced lines) {es : List Episode}
    {branches : List Bool} (he : Executes es branches) (hl : es.map (·.line) = lines) :
    branches = [] := by
  have hd := executes_surplus he
  rw [hl, h.closed] at hd
  exact List.length_eq_zero_iff.mp (by omega)

theorem AreBalanced.nil : AreBalanced [] := ⟨fun k => by simp [surplus, Line.weigh], rfl⟩

theorem AreBalanced.append (hx : AreBalanced xs) (hy : AreBalanced ys) :
    AreBalanced (xs ++ ys) where
  opened k := by
    rw [List.take_append, surplus_append]
    have hfirst := hx.opened k
    have hrest := hy.opened (k - xs.length)
    omega
  closed := by
    rw [surplus_append, hx.closed, hy.closed, add_zero]

theorem AreBalanced.times (h : AreBalanced lines) (n : Nat) :
    AreBalanced (List.replicate n lines).flatten := by
  induction n with
  | zero => exact .nil
  | succ n ih =>
    rw [List.replicate_succ, List.flatten_cons]
    exact h.append ih

/-- A line that neither opens nor closes a branch. -/
theorem AreBalanced.single (h : Line.weight (.text line) = 0) : AreBalanced [line] := by
  have hs : surplus [line] = 0 := (surplus_singleton line).trans h
  refine ⟨?_, hs⟩
  intro k
  cases k with
  | zero => exact Int.le_refl 0
  | succ k => rw [List.take_succ_cons, List.take_nil, hs]

theorem AreBalanced.branch {first last : String} (h : AreBalanced lines)
    (hfirst : Line.weight (.text first) = 1) (hlast : Line.weight (.text last) = -1) :
    AreBalanced (first :: lines ++ [last]) := by
  have hcons (xs : List String) : surplus (first :: xs) = 1 + surplus xs := by
    have h := surplus_append [first] xs
    rwa [surplus_singleton, hfirst] at h
  refine ⟨?_, ?_⟩
  · intro k
    cases k with
    | zero => exact Int.le_refl 0
    | succ k =>
      rw [List.cons_append, List.take_succ_cons, hcons, List.take_append, surplus_append]
      have hbody := h.opened k
      -- what is taken of the last line takes at most the branch that the first one opens
      have hend : -1 ≤ surplus ([last].take (k - lines.length)) := by
        cases k - lines.length with
        | zero => exact Int.neg_le_zero_iff.mpr Int.one_nonneg
        | succ n =>
          rw [List.take_succ_cons, List.take_nil, surplus_singleton, hlast]
      omega
  · rw [List.cons_append, hcons, surplus_append, h.closed, surplus_singleton, hlast]
    rfl

end Surplus

/-- A word whose first letter shows that it neither opens nor closes a branch. -/
def IsOther (word : String) : Prop :=
  word.toList.head?.any (fun c => !isBlank c && !sameLetter 'I' c && !sameLetter 'E' c)

/-- Rules whose lines, those of branches apart, begin with such a word. -/
def Rule.IsOther : Rule → Prop
  | .bare k => Program.IsOther k
  | .counted k _ => Program.IsOther k
  | .loop => True
  | .branch => True
  | .constant _ => False

section Compiled

variable {lines : List String}

theorem rule_isOther {type : String} {r : Rule}
    (h : Json.lookup standard.statements type = some r) : r.IsOther := by
  obtain ⟨m, hmem, rfl⟩ := Json.mem_of_lookup h
  have hall : ∀ m ∈ defaultStatements, m.2.IsOther := by
    simp [defaultStatements, Rule.IsOther, IsOther]
    decide
  exact hall m hmem

theorem weight_of_other {word : String} (h : IsOther word) (rest : String) :
    Line.weight (.text (word ++ rest)) = 0 := by
  cases hw : word.toList with
  | nil =>
    rw [IsOther, hw] at h
    cases h
  | cons c cs =>
    have hc : isBlank c = false ∧ sameLetter 'I' c = false ∧ sameLetter 'E' c = false := by
      rw [IsOther, hw] at h
      simpa [and_assoc] using h
    obtain ⟨hblank, hi, he⟩ := hc
    have hl : (word ++ rest).toList = c :: (cs ++ rest.toList) := by
      rw [String.toList_append, hw, List.cons_append]
    have hplain : (Json.Value.text (word ++ rest)).plain = word ++ rest := Json.Value.plain_text _
    cases hp : Instruction.parse (word ++ rest) with
    | error f =>
      unfold Line.weight
      rw [hplain, hp]
    | ok i =>
      have hbody := Instruction.parse_body hp hl hblank hi he
      exact Line.weight_of_body (by rw [hplain]; exact hp) hbody

mutual
/-- A block gives lines in balance, whatever its fields hold. -/
theorem balanced_block {b : Block} {lines : List String} (h : standard.block b = .ok lines) :
    AreBalanced lines := by
  match b with
  | .mk type fields statements inputs =>
    rw [Compiler.block] at h
    cases hl : Json.lookup standard.statements type with
    | none =>
      rw [hl] at h
      cases h
      exact .nil
    | some r =>
      have hr := rule_isOther hl
      rw [hl] at h
      cases r with
      | bare k =>
        cases h
        have hk := weight_of_other hr ""
        rw [String.append_empty] at hk
        exact .single hk
      | counted k field =>
        obtain ⟨text, _, h⟩ := bind_eq_ok h
        cases h
        have hk := weight_of_other hr (" " ++ text)
        rw [← String.append_assoc] at hk
        exact .single hk
      | loop =>
        obtain ⟨times, _, h⟩ := bind_eq_ok h
        obtain ⟨body, hb, h⟩ := bind_eq_ok h
        rw [unroll_eq h]
        exact (balanced_body hb).times times
      | branch =>
        obtain ⟨body, hb, h⟩ := bind_eq_ok h
        cases h
        obtain ⟨name, _, hp, _, _⟩ := condition_means inputs
        have hend : Instruction.parse "END_IF" = .ok ⟨"END_IF", .endBranch⟩ := by rfl
        exact (balanced_body hb).branch (Line.weight_of_branch (by exact hp) rfl)
          (Line.weight_of_endBranch (by exact hend) rfl)
      | constant ls => exact hr.elim

theorem balanced_body {statements : List (String × List Block)} {lines : List String}
    (h : standard.body statements = .ok lines) : AreBalanced lines := by
  match statements with
  | [] =>
    cases h
    exact .nil
  | (slot, bs) :: rest =>
    rw [Compiler.body] at h
    by_cases hs : slot = "DO"
    · rw [if_pos hs] at h
      exact balanced_sequence h
    · rw [if_neg hs] at h
      exact balanced_body h

theorem balanced_sequence {bs : List Block} {lines : List String}
    (h : standard.sequence bs = .ok lines) : AreBalanced lines := by
  match bs with
  | [] =>
    cases h
    exact .nil
  | b :: bs =>
    rw [Compiler.sequence] at h
    obtain ⟨first, hf, h⟩ := bind_eq_ok h
    obtain ⟨rest, hr, h⟩ := bind_eq_ok h
    cases h
    exact (balanced_block hf).append (balanced_sequence hr)
end

theorem balanced_compile {p : Program} (h : standard.compile p = .ok lines) :
    AreBalanced lines := by
  obtain ⟨ls, hls, h⟩ := bind_eq_ok h
  split at h
  · cases h
  · cases h
    exact balanced_sequence hls

/-- However the conditions turn out and whatever is asked of the agent, who executes compiled lines
never closes a branch that is not open, and has closed all of them in the end. -/
theorem compile_balanced {p : Program} (h : standard.compile p = .ok lines) :
    (∀ k, (lines.take k).countP closesBranch ≤ (lines.take k).countP opensBranch) ∧
      lines.countP closesBranch = lines.countP opensBranch ∧
      (∀ es branches, Executes es branches → ∀ line rest, lines = es.map (·.line) ++ line :: rest →
        ∀ (t : Interpreter) (token : Token) (scene : Scene) (text : String),
          t.branches = branches →
          (∀ m ∈ t.conditions, m.2.test scene ≠ .error (.instruction (.unopened text))) →
          (t.openLine token scene line).result ≠ .error (.instruction (.unopened text))) ∧
      ∀ es branches, Executes es branches → es.map (·.line) = lines →
        ∀ t : Interpreter, t.branches = branches → t.checkBalanced = .ok () := by
  have hb := balanced_compile h
  refine ⟨?_, ?_, ?_, ?_⟩
  · intro k
    have hk := hb.opened k
    rw [surplus_eq] at hk
    omega
  · have hc := hb.closed
    rw [surplus_eq] at hc
    omega
  · rintro es branches he line rest rfl t token scene text rfl ht hfault
    obtain ⟨hnone, hweight⟩ := Interpreter.openLine_unopened ht hfault
    -- the line would take the surplus below zero
    have htaken : (es.map (·.line) ++ line :: rest).take (es.length + 1) =
        es.map (·.line) ++ [line] := by
      rw [List.take_append, List.length_map, Nat.add_sub_cancel_left,
        List.take_of_length_le (by simp), List.take_succ_cons, List.take_zero]
    have hnext := hb.opened (es.length + 1)
    have hnow := executes_surplus he
    rw [htaken, surplus_append, surplus_singleton, hweight, ← hnow, hnone] at hnext
    exact absurd hnext (by decide)
  · rintro es branches he hl t rfl
    have hnone := hb.closed_of_executes he hl
    simp [Interpreter.checkBalanced, hnone]

/-- A count that spells the end of a branch, inside a branch of a loop. -/
def decoy : Program :=
  [.mk "repeat_n_times" [("TIMES", .int 2)]
    [("DO", [.mk "if_then" []
      [("DO", [.mk "move_forward" [("CELLS", .text "\nEND_IF")] [] []])] []])] []]

theorem compile_balanced_decoy :
    standard.compile decoy = .ok ["IF FALSE", "MOVE_FORWARD END_IF", "END_IF", "IF FALSE",
        "MOVE_FORWARD END_IF", "END_IF"] ∧
      ["IF FALSE", "MOVE_FORWARD END_IF", "END_IF", "IF FALSE", "MOVE_FORWARD END_IF",
        "END_IF"].countP closesBranch = 2 ∧
      ["IF FALSE", "MOVE_FORWARD END_IF", "END_IF", "IF FALSE", "MOVE_FORWARD END_IF",
        "END_IF"].countP opensBranch = 2 := by
  have hp : standard.compile decoy = .ok ["IF FALSE", "MOVE_FORWARD END_IF", "END_IF", "IF FALSE",
      "MOVE_FORWARD END_IF", "END_IF"] := by rfl
  obtain ⟨_, hcount, _, _⟩ := compile_balanced hp
  have hopens : ["IF FALSE", "MOVE_FORWARD END_IF", "END_IF", "IF FALSE", "MOVE_FORWARD END_IF",
      "END_IF"].countP opensBranch = 2 := by rfl
  exact ⟨hp, hcount.trans hopens, hopens⟩

end Compiled

end Program

end Courier
