import Courier.Proofs.Number.Visible
import Courier.Proofs.Program.Compilation
import Courier.Proofs.Program.Naming

namespace Courier.Program

open Json (Value)
open Text Compiler

mutual
/-- The values of fields that a block puts on its lines. -/
def shownBlock : Block → List Value
  | .mk type fields statements _ =>
    match Json.lookup standard.statements type with
    | some (.counted _ field) => (Json.lookup fields field).toList
    | some .loop => if timesOf fields = 0 then [] else shownBody statements
    | some .branch => shownBody statements
    | _ => []

def shownBody : List (String × List Block) → List Value
  | [] => []
  | (slot, bs) :: rest => if slot = "DO" then shown bs else shownBody rest

def shown : List Block → List Value
  | [] => []
  | b :: bs => shownBlock b ++ shown bs
end

/-- A value whose literal can end a line. -/
def EndsLine (v : Value) : Prop := ∀ text, literal v = .ok text → IsTail text

section Literal

variable {v : Value} {text : String}

theorem isTail_of_visible (h : AreVisible text.toList ∧ text ≠ "") : IsTail text :=
  ⟨h.2, fun c hc => (h.1 c hc).not_lineEnd⟩

theorem strip_of_visible (h : AreVisible text.toList ∧ text ≠ "") : strip text = text :=
  (isPlainLine_of_visible h.1 h.2).stripped

theorem literal_number {n : Number} (h : literal (.number n) = .ok text) :
    AreVisible text.toList ∧ text ≠ "" := by
  unfold literal at h
  dsimp only at h
  split at h
  · next i _ =>
    unfold integerText at h
    split at h
    · cases h
    · cases h
      exact Number.toString_visible i
  · cases h
    exact n.text_visible

theorem literal_bool {b : Bool} (h : literal (.bool b) = .ok text) :
    AreVisible text.toList ∧ text ≠ "" := by
  cases b <;> cases h <;> decide

theorem literal_stripped (h : literal v = .ok text) : strip text = text := by
  have hplain (s : String) (hs : strip s = text) : strip text = text := by
    rw [← hs, strip_strip]
  cases v with
  | bool b => exact strip_of_visible (literal_bool h)
  | number n => exact strip_of_visible (literal_number h)
  | _ => exact hplain _ (Except.ok.inj h)

/-- What a field of a block holds. -/
def IsScalar : Value → Prop
  | .bool _ => True
  | .number _ => True
  | .text _ => True
  | _ => False

/-- Of the scalars only texts can fail to end a line. -/
theorem endsLine_iff (hv : IsScalar v) : EndsLine v ↔ ∀ s, v = .text s → IsTail (strip s) := by
  cases v with
  | bool b =>
    refine ⟨fun _ s hs => (by cases hs), ?_⟩
    intro _ text h
    exact isTail_of_visible (literal_bool h)
  | number n =>
    refine ⟨fun _ s hs => (by cases hs), ?_⟩
    intro _ text h
    exact isTail_of_visible (literal_number h)
  | text s =>
    constructor
    · intro h t ht
      cases ht
      exact h _ rfl
    · intro h text ht
      cases ht
      exact h s rfl
  | null => exact hv.elim
  | list vs => exact hv.elim
  | object ms => exact hv.elim

end Literal

section Lines

variable {lines : List String}

/-- The keywords of the standard rules. -/
def Rule.IsSpelled : Rule → Prop
  | .bare k => AreVisible k.toList ∧ k ≠ ""
  | .counted k _ => AreVisible k.toList ∧ k ≠ ""
  | .loop => True
  | .branch => True
  | .constant _ => False

theorem rule_isSpelled {type : String} {r : Rule}
    (h : Json.lookup standard.statements type = some r) : r.IsSpelled := by
  obtain ⟨m, hmem, rfl⟩ := Json.mem_of_lookup h
  have hall : ∀ m ∈ defaultStatements, m.2.IsSpelled := by
    simp [defaultStatements, Rule.IsSpelled]
    decide
  exact hall m hmem

theorem condition_visible (inputs : List (String × Block)) :
    AreVisible (standard.condition inputs).toList ∧ standard.condition inputs ≠ "" := by
  have hfalse : AreVisible "FALSE".toList ∧ "FALSE" ≠ "" := by decide
  unfold condition
  split
  · exact hfalse
  · split
    · exact hfalse
    · next text hl =>
      obtain ⟨m, hmem, rfl⟩ := Json.mem_of_lookup hl
      have hall : ∀ m ∈ defaultValues, AreVisible m.2.toList ∧ m.2 ≠ "" := by decide
      split
      · exact hfalse
      · exact hall m hmem

/-- The line of a counted block is plain exactly if the value of its field can end a line. -/
theorem plain_counted {k field : String} {fields : Json.Members}
    (hk : AreVisible k.toList ∧ k ≠ "")
    (h : (do
      let text ← literal ((Json.lookup fields field).getD (.int 1))
      return [k ++ " " ++ text]) = .ok lines) :
    (∀ l ∈ lines, IsPlainLine l) ↔ ∀ v ∈ (Json.lookup fields field).toList, EndsLine v := by
  obtain ⟨text, hl, h⟩ := bind_eq_ok h
  cases h
  have hline := isPlainLine_keyword hk.1 hk.2 (literal_stripped hl)
  rw [List.forall_mem_singleton, hline]
  cases hf : Json.lookup fields field with
  | none =>
    rw [hf] at hl
    simp [isTail_of_visible (literal_number hl)]
  | some v =>
    rw [hf] at hl
    have hv : EndsLine v ↔ IsTail text := by
      constructor
      · exact fun h => h text hl
      · intro ht t hlt
        have he : text = t := Except.ok.inj (hl.symm.trans hlt)
        exact he ▸ ht
    simp [hv]

theorem plain_branch {inputs : List (String × Block)} {body : List String} :
    (∀ l ∈ ("IF " ++ standard.condition inputs) :: body ++ ["END_IF"], IsPlainLine l) ↔
      ∀ l ∈ body, IsPlainLine l := by
  have hc := condition_visible inputs
  have hopen : IsPlainLine ("IF " ++ standard.condition inputs) := by
    have he : "IF " ++ standard.condition inputs = "IF" ++ " " ++ standard.condition inputs := rfl
    rw [he]
    exact (isPlainLine_keyword (by decide) (by decide) (strip_of_visible hc)).mpr
      (isTail_of_visible hc)
  have hend : IsPlainLine "END_IF" := isPlainLine_of_visible (by decide) (by decide)
  simp [or_imp, forall_and, hopen, hend]

theorem plain_loop {times : Nat} (ht : times ≠ 0) (body : List String) :
    (∀ l ∈ (List.replicate times body).flatten, IsPlainLine l) ↔ ∀ l ∈ body, IsPlainLine l := by
  simp [List.mem_flatten, ht]

mutual
/-- The lines of a block are plain exactly if all values shown on them can end a line. -/
theorem plain_block {b : Block} {lines : List String} (h : standard.block b = .ok lines) :
    (∀ l ∈ lines, IsPlainLine l) ↔ ∀ v ∈ shownBlock b, EndsLine v := by
  match b with
  | .mk type fields statements inputs =>
    rw [shownBlock]
    rw [Compiler.block] at h
    cases hl : Json.lookup standard.statements type with
    | none =>
      rw [hl] at h
      cases h
      simp
    | some r =>
      have hr := rule_isSpelled hl
      rw [hl] at h
      cases r with
      | bare k =>
        cases h
        simp [isPlainLine_of_visible hr.1 hr.2]
      | counted k field => exact plain_counted hr h
      | loop =>
        obtain ⟨times, ht, h⟩ := bind_eq_ok h
        obtain ⟨body, hb, h⟩ := bind_eq_ok h
        dsimp only
        rw [unroll_eq h, ← loopCount_eq ht]
        by_cases hz : times = 0
        · simp [hz]
        · rw [if_neg hz, plain_loop hz]
          exact plain_body hb
      | branch =>
        obtain ⟨body, hb, h⟩ := bind_eq_ok h
        cases h
        exact plain_branch.trans (plain_body hb)
      | constant ls => exact hr.elim

theorem plain_body {statements : List (String × List Block)} {lines : List String}
    (h : standard.body statements = .ok lines) :
    (∀ l ∈ lines, IsPlainLine l) ↔ ∀ v ∈ shownBody statements, EndsLine v := by
  match statements with
  | [] =>
    cases h
    simp [shownBody]
  | (slot, bs) :: rest =>
    rw [Compiler.body] at h
    rw [shownBody]
    by_cases hs : slot = "DO"
    · rw [if_pos hs] at h ⊢
      exact plain_sequence h
    · rw [if_neg hs] at h ⊢
      exact plain_body h

theorem plain_sequence {bs : List Block} {lines : List String}
    (h : standard.sequence bs = .ok lines) :
    (∀ l ∈ lines, IsPlainLine l) ↔ ∀ v ∈ shown bs, EndsLine v := by
  match bs with
  | [] =>
    cases h
    simp [shown]
  | b :: bs =>
    rw [Compiler.sequence] at h
    obtain ⟨first, hf, h⟩ := bind_eq_ok h
    obtain ⟨rest, hr, h⟩ := bind_eq_ok h
    cases h
    rw [shown, List.forall_mem_append, List.forall_mem_append, plain_block hf, plain_sequence hr]
end

/-- The lines of a program are read back from its text exactly if no text shown on them is blank or
of several lines. -/
theorem text_reads_back {p : Program} {lines : List String} (h : standard.compile p = .ok lines)
    (hs : ∀ v ∈ shown p, IsScalar v) :
    ∃ text, standard.compileText p = .ok text ∧
      (filledLines text = lines ↔ ∀ s, .text s ∈ shown p → IsTail (strip s)) := by
  have hseq : standard.sequence p = .ok lines := by
    obtain ⟨ls, hls, hc⟩ := bind_eq_ok h
    split at hc
    · cases hc
    · cases hc
      exact hls
  refine ⟨joinLines lines, ?_, ?_⟩
  · unfold compileText
    rw [h]
    rfl
  · rw [filledLines_joinLines_iff, plain_sequence hseq]
    constructor
    · intro hends s hm
      exact (endsLine_iff (hs _ hm)).mp (hends _ hm) s rfl
    · intro hall v hm
      refine (endsLine_iff (hs v hm)).mpr ?_
      rintro s rfl
      exact hall s hm

/-- A text, a number and a truth value on lines, and a blank text in a loop without a turn. -/
def itinerary : Program :=
  [.mk "move_forward" [("CELLS", .text " 3\n")] [] [],
    .mk "wait" [("SECONDS", .int 2)] [] [],
    .mk "repeat_n_times" [("TIMES", .int 0)]
      [("DO", [.mk "move_forward" [("CELLS", .text "")] [] []])] [],
    .mk "if_then" [] [("DO", [.mk "move_backward" [("CELLS", .bool true)] [] []])] []]

theorem text_reads_back_itinerary :
    ∃ lines, standard.compile itinerary = .ok lines ∧ (∀ v ∈ shown itinerary, IsScalar v) ∧
      lines = ["MOVE_FORWARD 3", "WAIT 2", "IF FALSE", "MOVE_BACKWARD 1", "END_IF"] ∧
      ∃ text, standard.compileText itinerary = .ok text ∧ filledLines text = lines := by
  have hp : standard.compile itinerary = .ok
      ["MOVE_FORWARD 3", "WAIT 2", "IF FALSE", "MOVE_BACKWARD 1", "END_IF"] := by rfl
  have hshown : shown itinerary = [.text " 3\n", .int 2, .bool true] := by
    simp [shown, shownBlock, shownBody, itinerary, standard, defaultStatements, Json.lookup,
      Json.Key.beq_text, timesOf, integer?, Value.int, Number.toInt?]
  have hs : ∀ v ∈ shown itinerary, IsScalar v := by
    rw [hshown]
    simp [IsScalar, Value.int]
  obtain ⟨text, htext, hreads⟩ := text_reads_back hp hs
  refine ⟨_, hp, hs, rfl, text, htext, hreads.mpr ?_⟩
  intro s hm
  rw [hshown] at hm
  have he : s = " 3\n" := by simpa [Value.int] using hm
  rw [he]
  decide

/-- A count of two lines and a blank one read as other lines than those that are compiled. -/
theorem text_reads_differently :
    (∃ text, standard.compile [.mk "move_forward" [("CELLS", .text "1\nTURN_LEFT")] [] []] =
        .ok ["MOVE_FORWARD 1\nTURN_LEFT"] ∧
      standard.compileText [.mk "move_forward" [("CELLS", .text "1\nTURN_LEFT")] [] []] =
        .ok text ∧ filledLines text = ["MOVE_FORWARD 1", "TURN_LEFT"]) ∧
    (∃ text, standard.compile [.mk "move_forward" [("CELLS", .text "")] [] []] =
        .ok ["MOVE_FORWARD "] ∧
      standard.compileText [.mk "move_forward" [("CELLS", .text "")] [] []] = .ok text ∧
        filledLines text = ["MOVE_FORWARD"]) :=
  ⟨⟨_, rfl, rfl, rfl⟩, _, rfl, rfl, rfl⟩

end Lines

end Courier.Program
