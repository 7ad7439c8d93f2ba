import Courier.Proofs.Program.Unrolling

namespace Courier.Program

open Compiler

/-- One of the blocks, of which no lines are left as it is inside a loop without a turn. -/
def IsIdle (blocks : List Block) (b : Block) : Prop :=
  b ∈ blocks ∧ ∃ z ∈ blocks, rule? z = some .loop ∧ timesOf z.fields = 0 ∧
    b ∈ reachedBody z.statements

/-- A block is idle, or it gives no more lines than there are in all. -/
def IsHeld (blocks : List Block) (lines : Nat) (b : Block) : Prop :=
  IsIdle blocks b ∨ (unrolledBlock b).length ≤ lines

section Held

variable {blocks more : List Block} {lines total : Nat} {b : Block}

theorem IsHeld.mono (h : IsHeld blocks lines b) (hb : blocks ⊆ more) (hl : lines ≤ total) :
    IsHeld more total b := by
  rcases h with ⟨hmem, z, hz, hidle⟩ | hlen
  · exact .inl ⟨hb hmem, z, hb hz, hidle⟩
  · exact .inr (Nat.le_trans hlen hl)

mutual
theorem held_block (b : Block) :
    ∀ d ∈ reachedBlock b, IsHeld (reachedBlock b) (unrolledBlock b).length d := by
  match b with
  | .mk type fields statements inputs =>
    intro d hd
    rw [reachedBlock, List.mem_cons] at hd
    rcases hd with rfl | hd
    · exact .inr (Nat.le_refl _)
    · have hrule : rule? (.mk type fields statements inputs) =
        Json.lookup standard.statements type := rfl
      have hbody := held_body statements
      rw [reachedBlock]
      split at hd
      · next hr =>
        rw [unrolledBlock_loop (hrule.trans hr)]
        by_cases ht : timesOf fields = 0
        · exact .inl ⟨List.mem_cons_of_mem _ hd, _, List.mem_cons_self, hrule.trans hr, ht, hd⟩
        · refine (hbody d hd).mono ?_ ?_
          · simp
          · simpa using Nat.le_mul_of_pos_left _ (Nat.pos_of_ne_zero ht)
      · next hr =>
        rw [unrolledBlock, hr]
        refine (hbody d hd).mono ?_ ?_
        · simp
        · simp
          omega
      · simp at hd

theorem held_body (statements : List (String × List Block)) :
    ∀ d ∈ reachedBody statements,
      IsHeld (reachedBody statements) (unrolledBody statements).length d := by
  match statements with
  | [] => simp [reachedBody]
  | (slot, bs) :: rest =>
    rw [reachedBody, unrolledBody]
    by_cases hs : slot = "DO"
    · rw [if_pos hs, if_pos hs]
      exact held_sequence bs
    · rw [if_neg hs, if_neg hs]
      exact held_body rest

/-- What compiling a sequence reaches is idle or among its lines. -/
theorem held_sequence (bs : List Block) :
    ∀ d ∈ reached bs, IsHeld (reached bs) (unrolled bs).length d := by
  match bs with
  | [] => simp [reached]
  | b :: bs =>
    intro d hd
    rw [reached, unrolled, List.length_append]
    rw [reached, List.mem_append] at hd
    rcases hd with hd | hd
    · exact (held_block b d hd).mono (by simp) (by omega)
    · exact (held_sequence bs d hd).mono (by simp) (by omega)
end

end Held

section Compile

variable {n : Nat} {c : Compiler} {p : Program} {lines : List String} {f : Fault}

theorem compile_within (n : Nat) (p : Program) :
    (within n).compile p = (do
      let lines ← (within n).sequence p
      if n < lines.length then .error (.compile (.programTooLong lines.length (.int n)))
      else return lines) := by
  unfold Compiler.compile
  cases (within n).sequence p with
  | error f => rfl
  | ok lines =>
    rw [ok_bind, ok_bind, exceeds_within]
    simp only [decide_eq_true_iff]
    rfl

theorem compile_ok (h : (within n).compile p = .ok lines) :
    lines = unrolled p ∧ (unrolled p).length ≤ n ∧ ∀ b ∈ reached p, ∀ f, ¬Faulty n b f := by
  rw [compile_within] at h
  obtain ⟨ls, hs, h⟩ := bind_eq_ok h
  have hacc := sequence_accounts n p
  rw [hs] at hacc
  obtain ⟨rfl, hnone⟩ := hacc
  split at h
  · cases h
  · next hn =>
    cases h
    exact ⟨rfl, Nat.le_of_not_lt hn, hnone⟩

theorem compile_error (h : (within n).compile p = .error f) :
    (∃ b ∈ reached p, Faulty n b f) ∨
      f = .compile (.programTooLong (unrolled p).length (.int n)) ∧ n < (unrolled p).length ∧
        ∀ b ∈ reached p, ∀ g, ¬Faulty n b g := by
  rw [compile_within] at h
  have hacc := sequence_accounts n p
  rcases bind_eq_error h with hs | ⟨ls, hs, h⟩
  · rw [hs] at hacc
    exact .inl hacc
  · rw [hs] at hacc
    obtain ⟨rfl, hnone⟩ := hacc
    split at h
    · next hn =>
      cases h
      exact .inr ⟨rfl, hn, hnone⟩
    · cases h

/-- What is not over a number is a refusal. -/
theorem refused_of_error (h : (within n).compile p = .error f)
    (hu : ∀ b ∈ reached p, ∀ cause, ¬Unwieldy n b cause) : ∃ cause, f = .compile cause := by
  rcases compile_error h with ⟨b, hb, hf⟩ | ⟨rfl, _⟩
  · cases f with
    | compile cause => exact ⟨cause, rfl⟩
    | number cause => exact absurd hf (hu b hb cause)
    | _ => exact hf.elim
  · exact ⟨_, rfl⟩

theorem not_unwieldy {b : Block}
    (ht : rule? b = some .loop → ∃ k : Nat, timesOf? b.fields = some (k : Int) ∧ k < 2^63)
    (hw : ¬Unwieldy n b .tooLongToWrite) (cause : NumberFault) : ¬Unwieldy n b cause := by
  intro hu
  cases hu with
  | longCount hr hv hs => exact hw (.longCount hr hv hs)
  | longNegative hr hv hi hs => exact hw (.longNegative hr hv hi hs)
  | longLoop hr hv hn hs => exact hw (.longLoop hr hv hn hs)
  | @largeTimes k hr hv _ hk =>
    obtain ⟨l, hl, hlt⟩ := ht hr
    have he : (k : Int) = l := Option.some.inj (hv.symm.trans hl)
    omega

/-- A loop that can be counted is faulty exactly for its length. -/
theorem faulty_loop {b : Block} {k : Nat} (hr : rule? b = some .loop)
    (ht : timesOf? b.fields = some (k : Int)) (hk : k < 2^63) :
    (∃ f, Faulty n b f) ↔ n < (unrolledBlock b).length := by
  constructor
  · rintro ⟨f, hf⟩
    by_contra hn
    exact loop_not_faulty hr ht (Nat.le_of_not_lt hn) hk f hf
  · intro hn
    by_cases hs : IsLong (unrolledBlock b).length
    · exact ⟨.number .tooLongToWrite, .longLoop hr ht hn hs⟩
    · exact ⟨.compile _, .overLimit hr ht hn hs⟩

theorem Refused.loop {b : Block} {cause : CompileFault} (h : Refused n b cause) :
    rule? b = some .loop := by
  cases h <;> assumption

/-- For a loop with a count that is not negative only the refusal for its length is left. -/
theorem Refused.over {b : Block} {k : Nat} {cause : CompileFault} (h : Refused n b cause)
    (ht : timesOf? b.fields = some (k : Int)) : n < (unrolledBlock b).length := by
  cases h with
  | noInteger _ hnone => cases hnone.symm.trans ht
  | @negative i _ hi hneg =>
    have he : i = k := Option.some.inj (hi.symm.trans ht)
    omega
  | overLimit _ _ hn => exact hn

/-- Only for its length is a program refused whose loops can be counted and whose numbers can be
written: the length of the program, or of a loop that a loop without a turn keeps from its lines. -/
theorem limit_exact (hc : Compiler.make [] [] (.int n) = .ok c)
    (ht : ∀ b ∈ reached p, rule? b = some .loop →
      ∃ k : Nat, timesOf? b.fields = some (k : Int) ∧ k < 2^63)
    (hw : ∀ b ∈ reached p, ¬Unwieldy n b .tooLongToWrite) :
    ((∃ cause, c.compile p = .error (.compile cause)) ↔
        n < (unrolled p).length ∨
          ∃ b, IsIdle (reached p) b ∧ rule? b = some .loop ∧ n < (unrolledBlock b).length) ∧
      ((∀ cause, c.compile p ≠ .error (.compile cause)) → c.compile p = .ok (unrolled p)) := by
  obtain rfl := make_within hc
  have hu : ∀ b ∈ reached p, ∀ cause, ¬Unwieldy n b cause :=
    fun b hb => not_unwieldy (ht b hb) (hw b hb)
  refine ⟨⟨?_, ?_⟩, ?_⟩
  · rintro ⟨cause, h⟩
    rcases compile_error h with ⟨b, hb, hf⟩ | ⟨_, hn, _⟩
    · have hrefused : Refused n b cause := hf
      have hr := hrefused.loop
      obtain ⟨k, hk, _⟩ := ht b hb hr
      have hn := hrefused.over hk
      rcases held_sequence p b hb with hidle | hlen
      · exact .inr ⟨b, hidle, hr, hn⟩
      · exact .inl (Nat.lt_of_lt_of_le hn hlen)
    · exact .inl hn
  · intro hover
    cases h : (within n).compile p with
    | error f =>
      obtain ⟨cause, rfl⟩ := refused_of_error h hu
      exact ⟨cause, rfl⟩
    | ok lines =>
      obtain ⟨_, hlen, hnone⟩ := compile_ok h
      rcases hover with hn | ⟨b, hidle, hr, hn⟩
      · omega
      · obtain ⟨k, hk, hlt⟩ := ht b hidle.1 hr
        obtain ⟨f, hf⟩ := (faulty_loop hr hk hlt).mpr hn
        exact absurd hf (hnone b hidle.1 f)
  · intro hnone
    cases h : (within n).compile p with
    | error f =>
      obtain ⟨cause, rfl⟩ := refused_of_error h hu
      exact absurd h (hnone cause)
    | ok lines =>
      obtain ⟨rfl, _⟩ := compile_ok h
      rfl

namespace Laps

def stride : Block := .mk "move_forward" [("CELLS", .int 3)] [] []

def idle : Block := .mk "repeat_n_times" [("TIMES", .int 0)] [("DO", [stride])] []

def gate : Block := .mk "if_then" [] [("DO", [idle])] []

def turn : Block := .mk "turn_left" [] [] []

def lap : Block := .mk "repeat_n_times" [("TIMES", .int 2)] [("DO", [turn, gate])] []

end Laps

open Laps

/-- Two laps with a turn and a branch, in which a loop without a turn has a stride. -/
def laps : Program := [lap]

theorem mem_laps {b : Block} (hb : b ∈ reached laps) :
    b = lap ∨ b = turn ∨ b = gate ∨ b = idle ∨ b = stride := by
  have hreached : reached laps = [lap, turn, gate, idle, stride] := rfl
  simpa [hreached] using hb

theorem laps_counted : ∀ b ∈ reached laps, rule? b = some .loop →
    ∃ k : Nat, timesOf? b.fields = some (k : Int) ∧ k < 2^63 := by
  intro b hb hr
  rcases mem_laps hb with rfl | rfl | rfl | rfl | rfl
  · exact ⟨2, rfl, by decide⟩
  · cases hr
  · cases hr
  · exact ⟨0, rfl, by decide⟩
  · cases hr

theorem laps_written (n : Nat) : ∀ b ∈ reached laps, ¬Unwieldy n b .tooLongToWrite := by
  intro b hb hu
  cases hu with
  | longNegative hr ht hi =>
    obtain ⟨k, hk, _⟩ := laps_counted b hb hr
    have he := Option.some.inj (ht.symm.trans hk)
    omega
  | longCount hr hv hs =>
    rcases mem_laps hb with rfl | rfl | rfl | rfl | rfl <;> cases hr
    cases hv
    exact absurd hs (by decide)
  | longLoop hr _ _ hs =>
    rcases mem_laps hb with rfl | rfl | rfl | rfl | rfl <;> cases hr
    · exact absurd hs (by decide)
    · exact absurd hs (by decide)

/-- The laps are six lines: five are too few, and six are enough. -/
theorem limit_exact_laps :
    (∃ cause, (within 5).compile laps = .error (.compile cause)) ∧
      (within 6).compile laps =
        .ok ["TURN_LEFT", "IF FALSE", "END_IF", "TURN_LEFT", "IF FALSE", "END_IF"] := by
  have hfive : Compiler.make [] [] (.int (5 : Nat)) = .ok (within 5) := rfl
  have hsix : Compiler.make [] [] (.int (6 : Nat)) = .ok (within 6) := rfl
  refine ⟨?_, ?_⟩
  · exact (limit_exact hfive laps_counted (laps_written 5)).1.mpr (.inl (by decide))
  · refine (limit_exact hsix laps_counted (laps_written 6)).2 ?_
    intro cause h
    cases h

/-- No turns of a loop of two. -/
def standing : Program :=
  [.mk "repeat_n_times" [("TIMES", .int 0)]
    [("DO", [.mk "repeat_n_times" [("TIMES", .int 2)] [("DO", [turn])] []])] []]

/-- Nothing is left of a loop without a turn, and still the loop in it is refused. -/
theorem idle_loop_refused :
    unrolled standing = [] ∧
      (within 1).compile standing = .error (.compile (.loopTooLong 2 (.int 1))) :=
  ⟨rfl, rfl⟩

/-- With no unwieldy number compiling gives lines or is refused. With one it gives no lines, and if
there is nothing to refuse it fails over such a number. -/
theorem compile_faults (hc : Compiler.make [] [] (.int n) = .ok c) :
    ((∀ b ∈ reached p, ∀ cause, ¬Unwieldy n b cause) →
        (∃ lines, c.compile p = .ok lines) ∨ ∃ cause, c.compile p = .error (.compile cause)) ∧
      ∀ b ∈ reached p, ∀ cause, Unwieldy n b cause →
        (∀ lines, c.compile p ≠ .ok lines) ∧
          ((∀ d ∈ reached p, ∀ refusal, ¬Refused n d refusal) →
            ∃ d ∈ reached p, ∃ cause, Unwieldy n d cause ∧
              c.compile p = .error (.number cause)) := by
  obtain rfl := make_within hc
  refine ⟨?_, ?_⟩
  · intro hu
    cases h : (within n).compile p with
    | ok lines => exact .inl ⟨lines, rfl⟩
    | error f =>
      obtain ⟨cause, rfl⟩ := refused_of_error h hu
      exact .inr ⟨cause, rfl⟩
  · intro b hb cause hu
    have hfaulty : Faulty n b (.number cause) := hu
    refine ⟨?_, ?_⟩
    · intro lines h
      obtain ⟨_, _, hnone⟩ := compile_ok h
      exact hnone b hb _ hfaulty
    · intro hd
      cases h : (within n).compile p with
      | ok lines =>
        obtain ⟨_, _, hnone⟩ := compile_ok h
        exact absurd hfaulty (hnone b hb _)
      | error f =>
        rcases compile_error h with ⟨d, hmem, hf⟩ | ⟨_, _, hnone⟩
        · cases f with
          | compile refusal => exact absurd hf (hd d hmem refusal)
          | number cause => exact ⟨d, hmem, cause, hf, rfl⟩
          | _ => exact hf.elim
        · exact absurd hfaulty (hnone b hb _)

end Compile

/-- A loop over nothing, whose count is the least that is too large. -/
def bodiless : Block := .mk "repeat_n_times" [("TIMES", .int (2^63))] [] []

def spins : Program := [.mk "turn_left" [] [] [], bodiless]

theorem length_bodiless : (unrolledBlock bodiless).length = 0 := by
  rw [bodiless, length_loop (k := 2^63) rfl rfl]
  rfl

theorem mem_spins {b : Block} (hb : b ∈ reached spins) :
    b = .mk "turn_left" [] [] [] ∨ b = bodiless := by
  have hreached : reached spins = [.mk "turn_left" [] [] [], bodiless] := rfl
  simpa [hreached] using hb

/-- Nothing of the turn and the loop is refused, and the loop cannot be counted. -/
theorem compile_faults_spins :
    (∀ lines, (within 2).compile spins ≠ .ok lines) ∧
      ∃ cause, (within 2).compile spins = .error (.number cause) := by
  have hc : Compiler.make [] [] (.int (2 : Nat)) = .ok (within 2) := rfl
  have hmem : bodiless ∈ reached spins := List.mem_cons_of_mem _ List.mem_cons_self
  have hlen : (unrolledBlock bodiless).length ≤ 2 := by
    rw [length_bodiless]
    decide
  have hu : Unwieldy 2 bodiless .countOutOfRange :=
    .largeTimes (k := 2^63) rfl rfl hlen (Nat.le_refl _)
  have hd : ∀ d ∈ reached spins, ∀ refusal, ¬Refused 2 d refusal := by
    intro d hd refusal hr
    rcases mem_spins hd with rfl | rfl
    · cases hr with
      | noInteger hr => cases hr
      | negative hr => cases hr
      | overLimit hr => cases hr
    · cases hr with
      | noInteger _ ht => cases ht
      | negative _ ht hi =>
        cases ht
        exact absurd hi (by decide)
      | overLimit _ _ hn => exact absurd hn (Nat.not_lt_of_le hlen)
  obtain ⟨hlines, hnumber⟩ := (compile_faults hc).2 _ hmem _ hu
  obtain ⟨d, _, cause, _, h⟩ := hnumber hd
  exact ⟨hlines, cause, h⟩

/-- A step of so many cells that the count cannot be written. -/
theorem long_step_fails {i : Int} (hs : IsLong i) :
    standard.compile [.mk "move_forward" [("CELLS", .int i)] [] []] =
      .error (.number .tooLongToWrite) := by
  have hi : countOf? [("CELLS", .int i)] "CELLS" = some i := rfl
  have ht := (literal_countOf hi).trans (integerText_long hs)
  have hb : standard.block (.mk "move_forward" [("CELLS", .int i)] [] []) =
      .error (.number .tooLongToWrite) := by
    have hr : Json.lookup standard.statements "move_forward" =
      some (.counted "MOVE_FORWARD" "CELLS") := rfl
    rw [Compiler.block, hr]
    dsimp only
    rw [ht]
    rfl
  rw [Compiler.compile, Compiler.sequence, hb]
  rfl

/-- A loop over nothing and a step fail over their counts. -/
theorem compile_overflows :
    standard.compile [bodiless] = .error (.number .countOutOfRange) ∧
      standard.compile [.mk "move_forward" [("CELLS", .int (10^Number.maxDigits))] [] []] =
        .error (.number .tooLongToWrite) := by
  have hten : Int.natAbs 10 = 10 := rfl
  refine ⟨rfl, long_step_fails (isLong_iff.mpr ?_)⟩
  rw [Int.natAbs_pow, hten]

end Courier.Program
