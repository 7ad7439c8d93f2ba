import Courier.Program.Compiler
import Courier.Proofs.Json.Lookup
import Courier.Proofs.Program.Reloading

namespace Courier.Program

open Json (Key Value Members)

variable {c : Compiler}

mutual
/-- No condition of a compiled branch stands as a single block in a slot for sequences, unless it is
false anyway. -/
def Compiler.SettledBlock (c : Compiler) : Block → Prop
  | .mk type _ statements _ =>
    match Json.lookup c.statements type with
    | some .loop => c.SettledBody statements
    | some .branch =>
      (∀ b, Json.lookup statements "CONDITION" = some [b] →
        c.condition [("CONDITION", b)] = "FALSE") ∧ c.SettledBody statements
    | _ => True

def Compiler.SettledBody (c : Compiler) : List (String × List Block) → Prop
  | [] => True
  | (slot, bs) :: rest => if slot = "DO" then c.Settled bs else c.SettledBody rest

def Compiler.Settled (c : Compiler) : List Block → Prop
  | [] => True
  | b :: bs => c.SettledBlock b ∧ c.Settled bs
end

section Condition

theorem type_resaved (b : Block) : (resaved b).type = b.type := by
  cases b
  rfl

/-- A condition depends on the type of its block only. -/
theorem condition_congr {is js : List (String × Block)}
    (h : (Json.lookup is "CONDITION").map Block.type = (Json.lookup js "CONDITION").map Block.type) :
    c.condition is = c.condition js := by
  unfold Compiler.condition
  cases hi : Json.lookup is "CONDITION" <;> cases hj : Json.lookup js "CONDITION" <;>
    simp_all

theorem lookup_resavedInputs (inputs : List (String × Block)) (key : String) :
    Json.lookup (resavedInputs inputs).inputs key = (Json.lookup inputs key).map resaved := by
  induction inputs with
  | nil => rfl
  | cons r rest ih =>
    obtain ⟨slot, b⟩ := r
    rw [resavedInputs, Slots.inputs_append, Json.lookup_append, ih]
    by_cases hs : slot = key <;> simp [Json.lookup, hs]

theorem placed_names {slot : String} {bs : List Block} {x : String}
    (hx : x ∈ (placed slot bs).names) : x = slot := by
  match bs with
  | [] => simp [placed, Slots.names, Slots.empty] at hx
  | [b] => cases hs : isStatementSlot slot <;> simpa [placed, Slots.names, hs] using hx
  | b :: d :: bs => simpa [placed, Slots.names] using hx

theorem resavedStatements_names {statements : List (String × List Block)} {x : String}
    (hx : x ∈ (resavedStatements statements).names) : x ∈ statements.map (·.1) := by
  induction statements with
  | nil => simp [resavedStatements, Slots.names, Slots.empty] at hx
  | cons r rest ih =>
    obtain ⟨slot, bs⟩ := r
    rw [resavedStatements, Slots.mem_names_append] at hx
    rcases hx with hx | hx
    · simp [placed_names hx]
    · exact List.mem_cons_of_mem _ (ih hx)

theorem lookup_placed {slot key : String} {bs : List Block} {b : Block}
    (h : Json.lookup (placed slot bs).inputs key = some b) : slot = key ∧ bs = [b] := by
  match bs with
  | [] => cases h
  | [d] =>
    cases hs : isStatementSlot slot with
    | true => simp [placed, hs, Json.lookup] at h
    | false =>
      by_cases hk : slot = key
      · subst hk
        have hd : d = b := by simpa [placed, hs, Json.lookup] using h
        rw [hd]
        exact ⟨rfl, rfl⟩
      · simp [placed, hs, Json.lookup, hk] at h
  | d :: e :: bs => cases h

/-- A statement slot that becomes an input slot held a single block. -/
theorem lookup_resavedStatements {statements : List (String × List Block)}
    (hn : (statements.map (·.1)).Nodup) {key : String} {b : Block}
    (h : Json.lookup (resavedStatements statements).inputs key = some b) :
    ∃ d, Json.lookup statements key = some [d] ∧ b = resaved d := by
  induction statements with
  | nil => cases h
  | cons r rest ih =>
    obtain ⟨slot, bs⟩ := r
    obtain ⟨hslot, hrest⟩ := List.nodup_cons.mp hn
    rw [resavedStatements, Slots.inputs_append, Json.lookup_append] at h
    cases hp : Json.lookup (placed slot (resavedSequence bs)).inputs key with
    | some d =>
      rw [hp] at h
      cases h
      obtain ⟨rfl, hb⟩ := lookup_placed hp
      match bs with
      | [] => cases hb
      | [d] =>
        cases hb
        exact ⟨d, by simp [Json.lookup], rfl⟩
      | d :: e :: bs => cases hb
    | none =>
      rw [hp] at h
      obtain ⟨d, hd, rfl⟩ := ih hrest h
      have hs : slot ≠ key := by
        rintro rfl
        rw [(Json.lookup_eq_none_iff _ _).mpr hslot] at hd
        cases hd
      refine ⟨d, ?_, rfl⟩
      simpa [Json.lookup, hs] using hd

/-- The condition of a branch that is settled is the same after saving. -/
theorem condition_resaved {statements : List (String × List Block)} {inputs : List (String × Block)}
    (hn : (statements.map (·.1)).Nodup)
    (hs : ∀ b, Json.lookup statements "CONDITION" = some [b] →
      c.condition [("CONDITION", b)] = "FALSE") :
    c.condition (resavedInputs inputs ++ resavedStatements statements).inputs =
      c.condition inputs := by
  have hl : Json.lookup (resavedInputs inputs ++ resavedStatements statements).inputs "CONDITION" =
      ((Json.lookup inputs "CONDITION").map resaved).or
        (Json.lookup (resavedStatements statements).inputs "CONDITION") := by
    rw [Slots.inputs_append, Json.lookup_append, lookup_resavedInputs]
  cases hi : Json.lookup inputs "CONDITION" with
  | some b =>
    refine condition_congr ?_
    rw [hl, hi]
    simp [type_resaved]
  | none =>
    have hfalse : c.condition inputs = "FALSE" := by
      unfold Compiler.condition
      rw [hi]
    rw [hi, Option.map_none, Option.none_or] at hl
    cases hr : Json.lookup (resavedStatements statements).inputs "CONDITION" with
    | none =>
      refine condition_congr ?_
      rw [hl, hr, hi]
    | some d =>
      obtain ⟨b, hb, rfl⟩ := lookup_resavedStatements hn hr
      rw [hfalse, ← hs b hb]
      refine condition_congr ?_
      rw [hl, hr]
      simp [Json.lookup, type_resaved]

end Condition

section Compile

theorem body_skip {xs ys : List (String × List Block)} (h : "DO" ∉ xs.map (·.1)) :
    c.body (xs ++ ys) = c.body ys := by
  induction xs with
  | nil => rfl
  | cons x xs ih =>
    obtain ⟨slot, bs⟩ := x
    rw [List.map_cons, List.mem_cons, not_or] at h
    rw [List.cons_append, Compiler.body, if_neg (Ne.symm h.1)]
    exact ih h.2

theorem placed_body {bs : List Block} :
    (placed "DO" bs).statements = if bs.isEmpty then [] else [("DO", bs)] := by
  match bs with
  | [] => rfl
  | [b] => rfl
  | b :: d :: bs => rfl

theorem resavedInputs_statements (inputs : List (String × Block)) :
    (resavedInputs inputs).statements = [] := by
  induction inputs with
  | nil => rfl
  | cons r rest ih => exact ih

theorem body_none {statements : List (String × List Block)} (h : "DO" ∉ statements.map (·.1)) :
    c.body statements = .ok [] := by
  have hb : c.body (statements ++ []) = c.body [] := body_skip h
  rwa [List.append_nil] at hb

mutual
theorem block_resaved {b : Block} (h : b.Everywhere AreNeat) (hs : c.SettledBlock b) :
    c.block (resaved b) = c.block b := by
  match b with
  | .mk type fields statements inputs =>
    obtain ⟨hn, hstatements, _⟩ := h
    rw [Compiler.SettledBlock] at hs
    have hbody (hsettled : c.SettledBody statements) :
        c.body (resavedInputs inputs ++ resavedStatements statements).statements =
          c.body statements := by
      rw [Slots.statements_append, resavedInputs_statements]
      exact body_resaved hn.sequences hstatements hsettled
    rw [resaved, Compiler.block, Compiler.block]
    cases hl : Json.lookup c.statements type with
    | none => rfl
    | some r =>
      rw [hl] at hs
      cases r with
      | loop =>
        dsimp only
        rw [hbody hs]
        rfl
      | branch =>
        dsimp only
        rw [hbody hs.2, condition_resaved hn.sequences hs.1]
      | bare keyword => rfl
      | counted keyword field => rfl
      | constant lines => rfl

theorem body_resaved {statements : List (String × List Block)}
    (hn : (statements.map (·.1)).Nodup) (h : Block.EverywhereIn AreNeat statements)
    (hs : c.SettledBody statements) :
    c.body (resavedStatements statements).statements = c.body statements := by
  match statements with
  | [] => rfl
  | (slot, bs) :: rest =>
    obtain ⟨hslot, hrest⟩ := List.nodup_cons.mp hn
    rw [Compiler.SettledBody] at hs
    rw [resavedStatements, Slots.statements_append, Compiler.body]
    by_cases hdo : slot = "DO"
    · subst hdo
      rw [if_pos rfl] at hs
      have hbs := sequence_resaved h.1 hs
      rw [if_pos rfl, ← hbs, placed_body]
      cases resavedSequence bs with
      | nil =>
        have hnone : "DO" ∉ (resavedStatements rest).statements.map (·.1) :=
          fun hm => hslot (resavedStatements_names (List.mem_append_right _ hm))
        exact body_none hnone
      | cons b bs =>
        rw [if_neg (by simp), List.cons_append, Compiler.body, if_pos rfl]
    · rw [if_neg hdo] at hs
      rw [if_neg hdo, ← body_resaved hrest h.2 hs]
      refine body_skip ?_
      intro hm
      exact hdo (placed_names (List.mem_append_right _ hm)).symm

theorem sequence_resaved {bs : List Block} (h : Block.EverywhereAmong AreNeat bs)
    (hs : c.Settled bs) : c.sequence (resavedSequence bs) = c.sequence bs := by
  match bs with
  | [] => rfl
  | b :: bs =>
    rw [Compiler.Settled] at hs
    rw [resavedSequence, Compiler.sequence, Compiler.sequence, block_resaved h.1 hs.1,
      sequence_resaved h.2 hs.2]
end

theorem compile_resaved {p : Program} (h : Block.EverywhereAmong AreNeat p) (hs : c.Settled p) :
    c.compile (resavedSequence p) = c.compile p := by
  unfold Compiler.compile
  rw [sequence_resaved h hs]

/-- A program that was read can be saved and read again, and compiles as before if it is settled. -/
theorem saved_compiles_alike (c : Compiler) {d : Value} (hd : d.IsJson) {n : Bool} {p : Program}
    (hp : ofDocument n d = .ok p) (m : Bool) :
    ∃ q, ofDocument m (toDocument p) = .ok q ∧ (c.Settled p → c.compile q = c.compile p) := by
  have hneat := ofDocument_neat hd hp
  exact ⟨resavedSequence p, ofDocument_toDocument hneat, compile_resaved hneat⟩

/-- Two stacks; the second one is a loop whose body is linked to nothing. -/
def stacked : Value :=
  .list [.object [("type", .text "turn_left"), ("next", .null)],
    .object [("type", .text "repeat_n_times"), ("fields", .object [("TIMES", .int 2)]),
      ("inputs", .object [("DO", .object [("block", .object [("type", .text "pickup"),
        ("next", .object [("block", .null)])])])])]]

theorem saved_compiles_alike_stacked :
    stacked.IsJson ∧ ∃ p, ofDocument true stacked = .ok p ∧ ∃ q,
      ofDocument true (toDocument p) = .ok q ∧ Compiler.standard.Settled p ∧
        Compiler.standard.compile p = .ok ["TURN_LEFT", "PICKUP", "PICKUP"] ∧
        Compiler.standard.compile q = .ok ["TURN_LEFT", "PICKUP", "PICKUP"] := by
  have hd : stacked.IsJson := by
    simp [stacked, Value.IsJson, Value.AreJson, Value.HoldJson, Value.int]
  have hp : ofDocument true stacked = .ok [.mk "turn_left" [] [] [],
      .mk "repeat_n_times" [("TIMES", .int 2)] [("DO", [.mk "pickup" [] [] []])] []] := by rfl
  obtain ⟨q, hq, hc⟩ := saved_compiles_alike .standard hd hp true
  have hs : Compiler.standard.Settled [.mk "turn_left" [] [] [],
      .mk "repeat_n_times" [("TIMES", .int 2)] [("DO", [.mk "pickup" [] [] []])] []] := by
    simp [Compiler.Settled, Compiler.SettledBlock, Compiler.SettledBody, Compiler.standard,
      Compiler.defaultStatements, Json.lookup]
  exact ⟨hd, _, hp, q, hq, hs, rfl, (hc hs).trans rfl⟩

/-- A branch whose condition is linked to nothing. -/
def linkedCondition : Value :=
  .object [("type", .text "if_then"), ("inputs", .object [("CONDITION", .object [("block",
    .object [("type", .text "is_wall_ahead"), ("next", .null)])])])]

/-- The condition counts only once the program is saved. -/
theorem saved_compiles_differently : linkedCondition.IsJson ∧ ∃ p q,
    ofDocument true linkedCondition = .ok p ∧ ofDocument true (toDocument p) = .ok q ∧
      Compiler.standard.compile p = .ok ["IF FALSE", "END_IF"] ∧
      Compiler.standard.compile q = .ok ["IF IS_WALL_AHEAD", "END_IF"] := by
  have hd : linkedCondition.IsJson := by
    simp [linkedCondition, Value.IsJson, Value.HoldJson]
  exact ⟨hd, _, _, rfl, rfl, rfl, rfl⟩

end Compile

end Courier.Program
