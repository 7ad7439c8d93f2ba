import Courier.Proofs.Program.Counting
import Courier.Proofs.Program.Compilation

namespace Courier.Program

open Compiler
open Json (Value)

/-- The standard compiler with a limit of its own. -/
def Compiler.within (n : Nat) : Compiler := { standard with limit := .int n }

theorem make_within {n : Nat} {c : Compiler} (h : Compiler.make [] [] (.int n) = .ok c) :
    c = within n := by
  have hmake : Compiler.make [] [] (.int n) =
      if Number.lt (.int n) (.int 1) then .error (.value .instructionLimit)
      else .ok (within n) := rfl
  rw [hmake] at h
  split at h
  · cases h
  · exact (Except.ok.inj h).symm

theorem exceeds_within (n lines : Nat) : (within n).exceeds lines = decide (n < lines) := by
  have he : (within n).exceeds lines = (compare (n : Int) (lines : Int) == .lt) := rfl
  rw [he, Bool.eq_iff_iff, beq_iff_eq, compare_lt_iff_lt, decide_eq_true_iff, Int.ofNat_lt]

/-- The literal of a value, however long it is. -/
def spelled : Value → String
  | .bool b => if b then "1" else "0"
  | .number n =>
    match n.toInt? with
    | some i => toString i
    | none => n.text
  | v => Text.strip v.plain

mutual
/-- The lines of a block with all loops unrolled, however many they are. -/
def unrolledBlock : Block → List String
  | .mk type fields statements inputs =>
    match Json.lookup standard.statements type with
    | none => []
    | some (.bare keyword) => [keyword]
    | some (.counted keyword field) =>
      [keyword ++ " " ++ spelled ((Json.lookup fields field).getD (.int 1))]
    | some .loop => (List.replicate (timesOf fields) (unrolledBody statements)).flatten
    | some .branch => ("IF " ++ standard.condition inputs) :: unrolledBody statements ++ ["END_IF"]
    | some (.constant lines) => lines

def unrolledBody : List (String × List Block) → List String
  | [] => []
  | (slot, bs) :: rest => if slot = "DO" then unrolled bs else unrolledBody rest

def unrolled : List Block → List String
  | [] => []
  | b :: bs => unrolledBlock b ++ unrolled bs
end

mutual
/-- The blocks that compiling a block reaches: itself, and those in the bodies of loops and branches
down from it. -/
def reachedBlock : Block → List Block
  | .mk type fields statements inputs =>
    .mk type fields statements inputs ::
      match Json.lookup standard.statements type with
      | some .loop => reachedBody statements
      | some .branch => reachedBody statements
      | _ => []

def reachedBody : List (String × List Block) → List Block
  | [] => []
  | (slot, bs) :: rest => if slot = "DO" then reached bs else reachedBody rest

def reached : List Block → List Block
  | [] => []
  | b :: bs => reachedBlock b ++ reached bs
end

/-- The count of a loop, if it is an integer. -/
def timesOf? (fields : Json.Members) : Option Int :=
  integer? ((Json.lookup fields "TIMES").getD (.int 0))

/-- An integer with more digits than a text may have. -/
def IsLong (i : Int) : Prop := Number.maxDigits < (Nat.toDigits 10 i.natAbs).length

instance (i : Int) : Decidable (IsLong i) := inferInstanceAs (Decidable (_ < _))

theorem isLong_iff {i : Int} : IsLong i ↔ 10^Number.maxDigits ≤ i.natAbs := by
  have hle := Nat.length_toDigits_le_iff (b := 10) (n := i.natAbs) (k := Number.maxDigits)
    (by decide) (by decide)
  rw [IsLong, ← Nat.not_le, hle, Nat.not_lt]

/-- The rule for a block. -/
def rule? (b : Block) : Option Rule := Json.lookup standard.statements b.type

/-- Why a block cannot become lines within a limit. -/
inductive Refused (n : Nat) (b : Block) : CompileFault → Prop
  | noInteger (hr : rule? b = some .loop) (ht : timesOf? b.fields = none) :
    Refused n b
      (.countNotInteger b.type "TIMES" ((Json.lookup b.fields "TIMES").getD (.int 0)).literal)
  | negative {i : Int} (hr : rule? b = some .loop) (ht : timesOf? b.fields = some i) (hi : i < 0)
    (hs : ¬IsLong i) : Refused n b (.countNegative b.type "TIMES" i)
  | overLimit {k : Nat} (hr : rule? b = some .loop) (ht : timesOf? b.fields = some (k : Int))
    (hn : n < (unrolledBlock b).length) (hs : ¬IsLong (unrolledBlock b).length) :
    Refused n b (.loopTooLong (unrolledBlock b).length (.int n))

/-- Which number of a block is too long to be written or too large to count. -/
inductive Unwieldy (n : Nat) (b : Block) : NumberFault → Prop
  /-- A count on a line. -/
  | longCount {keyword field : String} {i : Int} (hr : rule? b = some (.counted keyword field))
    (hv : countOf? b.fields field = some i) (hs : IsLong i) : Unwieldy n b .tooLongToWrite
  /-- A negative loop count, which has to be told. -/
  | longNegative {i : Int} (hr : rule? b = some .loop) (ht : timesOf? b.fields = some i)
    (hi : i < 0) (hs : IsLong i) : Unwieldy n b .tooLongToWrite
  /-- The length of a loop over the limit, which has to be told. -/
  | longLoop {k : Nat} (hr : rule? b = some .loop) (ht : timesOf? b.fields = some (k : Int))
    (hn : n < (unrolledBlock b).length) (hs : IsLong (unrolledBlock b).length) :
    Unwieldy n b .tooLongToWrite
  /-- The count of a loop that is within the limit all the same, such as one without a body. -/
  | largeTimes {k : Nat} (hr : rule? b = some .loop) (ht : timesOf? b.fields = some (k : Int))
    (hn : (unrolledBlock b).length ≤ n) (hk : 2^63 ≤ k) : Unwieldy n b .countOutOfRange

/-- What is wrong with a block. -/
def Faulty (n : Nat) (b : Block) : Fault → Prop
  | .compile cause => Refused n b cause
  | .number cause => Unwieldy n b cause
  | _ => False

/-- What compiling some blocks comes to: the expected lines, with nothing wrong in the blocks, or
something that is wrong with one of them. -/
def Accounts (n : Nat) (r : Except Fault (List String)) (lines : List String)
    (blocks : List Block) : Prop :=
  match r with
  | .ok ls => ls = lines ∧ ∀ b ∈ blocks, ∀ f, ¬Faulty n b f
  | .error f => ∃ b ∈ blocks, Faulty n b f

section Accounts

variable {n : Nat} {b : Block} {f : Fault} {r q : Except Fault (List String)}
  {lines more : List String} {blocks others : List Block}

/-- Only loops and counts on lines can be wrong. -/
theorem not_faulty (hl : rule? b ≠ some .loop)
    (hc : ∀ keyword field i, rule? b = some (.counted keyword field) →
      countOf? b.fields field = some i → ¬IsLong i) (f : Fault) : ¬Faulty n b f := by
  intro hf
  cases f with
  | compile cause => cases hf <;> contradiction
  | number cause =>
    cases hf with
    | longCount hr hv hs => exact hc _ _ _ hr hv hs
    | longNegative hr => exact hl hr
    | longLoop hr => exact hl hr
    | largeTimes hr => exact hl hr
  | _ => exact hf.elim

theorem Accounts.nil : Accounts n (.ok []) [] [] := ⟨rfl, by simp⟩

theorem Accounts.append (h : Accounts n r lines blocks) (k : Accounts n q more others) :
    Accounts n (do return (← r) ++ (← q)) (lines ++ more) (blocks ++ others) := by
  cases r with
  | error f =>
    obtain ⟨b, hb, hf⟩ := h
    exact ⟨b, List.mem_append_left _ hb, hf⟩
  | ok ls =>
    obtain ⟨rfl, hnone⟩ := h
    cases q with
    | error f =>
      obtain ⟨b, hb, hf⟩ := k
      exact ⟨b, List.mem_append_right _ hb, hf⟩
    | ok ms =>
      obtain ⟨rfl, hmore⟩ := k
      refine ⟨rfl, ?_⟩
      intro b hb
      rcases List.mem_append.mp hb with hb | hb
      · exact hnone b hb
      · exact hmore b hb

/-- A block that has no body. -/
theorem Accounts.single (hb : ∀ f, ¬Faulty n b f) : Accounts n (.ok lines) lines [b] :=
  ⟨rfl, by simpa using hb⟩

theorem Accounts.wrap (h : Accounts n r lines blocks) (hb : ∀ f, ¬Faulty n b f)
    (first last : List String) :
    Accounts n (do return first ++ (← r) ++ last) (first ++ lines ++ last) (b :: blocks) := by
  cases r with
  | error f =>
    obtain ⟨d, hd, hf⟩ := h
    exact ⟨d, List.mem_cons_of_mem _ hd, hf⟩
  | ok ls =>
    obtain ⟨rfl, hnone⟩ := h
    refine ⟨rfl, ?_⟩
    intro d hd
    rcases List.mem_cons.mp hd with rfl | hd
    · exact hb
    · exact hnone d hd

end Accounts

section Block

variable {n : Nat} {type : String} {fields : Json.Members} {field : String}
  {statements : List (String × List Block)} {inputs : List (String × Block)}

theorem spelled_countOf {i : Int} (h : countOf? fields field = some i) :
    spelled ((Json.lookup fields field).getD (.int 1)) = toString i := by
  unfold countOf? at h
  generalize (Json.lookup fields field).getD (.int 1) = v at h
  cases v with
  | bool b =>
    obtain rfl := Option.some.inj h
    cases b <;> rfl
  | number m =>
    dsimp only at h
    simp only [spelled, h]
  | null => cases h
  | text s => cases h
  | list vs => cases h
  | object ms => cases h

/-- What is no integer is shown however long it is. -/
theorem literal_spelled (h : countOf? fields field = none) :
    literal ((Json.lookup fields field).getD (.int 1)) =
      .ok (spelled ((Json.lookup fields field).getD (.int 1))) := by
  unfold countOf? at h
  generalize (Json.lookup fields field).getD (.int 1) = v at h
  cases v with
  | bool b => cases h
  | number m =>
    dsimp only at h
    simp only [literal, spelled, h]
  | null => rfl
  | text s => rfl
  | list vs => rfl
  | object ms => rfl

theorem accounts_counted {keyword : String}
    (hr : rule? (.mk type fields statements inputs) = some (.counted keyword field)) :
    Accounts n (do
        let text ← literal ((Json.lookup fields field).getD (.int 1))
        return [keyword ++ " " ++ text])
      [keyword ++ " " ++ spelled ((Json.lookup fields field).getD (.int 1))]
      [.mk type fields statements inputs] := by
  have hloop : rule? (.mk type fields statements inputs) ≠ some .loop := by simp [hr]
  cases hv : countOf? fields field with
  | none =>
    rw [literal_spelled hv]
    refine .single (not_faulty hloop ?_)
    intro k g i hk hi
    obtain ⟨_, rfl⟩ := Rule.counted.inj (Option.some.inj (hr.symm.trans hk))
    cases hv.symm.trans hi
  | some i =>
    rw [literal_countOf hv, spelled_countOf hv]
    by_cases hs : IsLong i
    · rw [integerText_long hs]
      exact ⟨_, List.mem_singleton_self _, .longCount hr hv hs⟩
    · rw [integerText_short (Nat.le_of_not_lt hs)]
      refine .single (not_faulty hloop ?_)
      intro k g j hk hj
      obtain ⟨_, rfl⟩ := Rule.counted.inj (Option.some.inj (hr.symm.trans hk))
      obtain rfl := Option.some.inj (hv.symm.trans hj)
      exact hs

theorem loopCount_none (h : timesOf? fields = none) :
    loopCount (.mk type fields statements inputs) "TIMES" =
      .error (.compile (.countNotInteger type "TIMES"
        ((Json.lookup fields "TIMES").getD (.int 0)).literal)) := by
  unfold timesOf? at h
  unfold loopCount
  dsimp only [Block.fields, Block.type]
  rw [h]

theorem loopCount_negative {i : Int} (h : timesOf? fields = some i) (hi : i < 0) :
    loopCount (.mk type fields statements inputs) "TIMES" =
      if IsLong i then .error (.number .tooLongToWrite)
      else .error (.compile (.countNegative type "TIMES" i)) := by
  unfold timesOf? at h
  unfold loopCount
  dsimp only [Block.fields, Block.type]
  rw [h]
  dsimp only
  rw [if_pos hi]
  by_cases hs : IsLong i
  · rw [integerText_long hs, if_pos hs]
    rfl
  · rw [integerText_short (Nat.le_of_not_lt hs), if_neg hs]
    rfl

theorem loopCount_natural {k : Nat} (h : timesOf? fields = some (k : Int)) :
    loopCount (.mk type fields statements inputs) "TIMES" = .ok k := by
  unfold timesOf? at h
  unfold loopCount
  dsimp only [Block.fields, Block.type]
  rw [h]
  dsimp only
  rw [if_neg (by omega), Int.toNat_natCast]

theorem timesOf_eq {k : Nat} (h : timesOf? fields = some (k : Int)) : timesOf fields = k := by
  have he : timesOf fields = ((timesOf? fields).getD 0).toNat := rfl
  rw [he, h, Option.getD_some, Int.toNat_natCast]

/-- Whether a loop is unrolled depends on the length that it comes to, and then on its count. -/
theorem unroll_within (times : Nat) (body : List String) :
    (within n).unroll times body =
      if n < body.length*times then
        if IsLong (body.length*times : Nat) then .error (.number .tooLongToWrite)
        else .error (.compile (.loopTooLong (body.length*times) (.int n)))
      else if 2^63 ≤ times then .error (.number .countOutOfRange)
      else .ok (List.replicate times body).flatten := by
  have hover : (times ≠ 0 ∧ (within n).exceeds (body.length*times) = true) ↔
      n < body.length*times := by
    rw [exceeds_within, decide_eq_true_iff]
    refine ⟨And.right, ?_⟩
    intro hn
    refine ⟨?_, hn⟩
    rintro rfl
    omega
  have hlarge : (1 : Nat) <<< 63 = 2^63 := rfl
  unfold unroll
  by_cases hn : n < body.length*times
  · rw [if_pos (hover.mpr hn), if_pos hn]
    rfl
  · rw [if_neg (mt hover.mp hn), if_neg hn, hlarge]
    cases body with
    | nil => simp
    | cons line body => rfl

theorem unrolledBlock_loop (hr : rule? (.mk type fields statements inputs) = some .loop) :
    unrolledBlock (.mk type fields statements inputs) =
      (List.replicate (timesOf fields) (unrolledBody statements)).flatten := by
  have hl : Json.lookup standard.statements type = some .loop := hr
  rw [unrolledBlock, hl]

theorem length_loop {k : Nat} (hr : rule? (.mk type fields statements inputs) = some .loop)
    (ht : timesOf? fields = some (k : Int)) :
    (unrolledBlock (.mk type fields statements inputs)).length =
      (unrolledBody statements).length*k := by
  rw [unrolledBlock_loop hr, timesOf_eq ht]
  simp [Nat.mul_comm]

/-- A loop whose count is good and whose lines are within the limit has nothing wrong with it. -/
theorem loop_not_faulty {b : Block} {k : Nat} (hr : rule? b = some .loop)
    (ht : timesOf? b.fields = some (k : Int)) (hn : (unrolledBlock b).length ≤ n) (hk : k < 2^63)
    (f : Fault) : ¬Faulty n b f := by
  intro hf
  have hcount {i : Int} (hi : timesOf? b.fields = some i) : i = k :=
    (Option.some.inj (ht.symm.trans hi)).symm
  cases f with
  | compile cause =>
    cases hf with
    | noInteger _ h => cases ht.symm.trans h
    | negative _ h hi => have := hcount h; omega
    | overLimit _ _ h => omega
  | number cause =>
    cases hf with
    | longCount h => cases hr.symm.trans h
    | longNegative _ h hi => have := hcount h; omega
    | longLoop _ _ h => omega
    | largeTimes _ h _ hlarge => have := hcount h; omega
  | _ => exact hf.elim

/-- A loop over a body that comes to what is expected. -/
theorem accounts_loop {r : Except Fault (List String)} {blocks : List Block}
    (hr : rule? (.mk type fields statements inputs) = some .loop)
    (h : Accounts n r (unrolledBody statements) blocks) :
    Accounts n (do
        let times ← loopCount (.mk type fields statements inputs) "TIMES"
        (within n).unroll times (← r))
      (unrolledBlock (.mk type fields statements inputs))
      (.mk type fields statements inputs :: blocks) := by
  cases ht : timesOf? fields with
  | none =>
    rw [loopCount_none ht]
    exact ⟨_, List.mem_cons_self, .noInteger hr ht⟩
  | some i =>
    by_cases hi : i < 0
    · rw [loopCount_negative ht hi]
      by_cases hs : IsLong i
      · rw [if_pos hs]
        exact ⟨_, List.mem_cons_self, .longNegative hr ht hi hs⟩
      · rw [if_neg hs]
        exact ⟨_, List.mem_cons_self, .negative hr ht hi hs⟩
    · obtain ⟨k, rfl⟩ := Int.eq_ofNat_of_zero_le (Int.not_lt.mp hi)
      rw [loopCount_natural ht, ok_bind]
      cases r with
      | error f =>
        obtain ⟨b, hb, hf⟩ := h
        exact ⟨b, List.mem_cons_of_mem _ hb, hf⟩
      | ok body =>
        obtain ⟨rfl, hnone⟩ := h
        have hlen := length_loop hr ht
        rw [ok_bind, unroll_within, ← hlen]
        by_cases hn : n < (unrolledBlock (.mk type fields statements inputs)).length
        · rw [if_pos hn]
          by_cases hs : IsLong (unrolledBlock (.mk type fields statements inputs)).length
          · rw [if_pos hs]
            exact ⟨_, List.mem_cons_self, .longLoop hr ht hn hs⟩
          · rw [if_neg hs]
            exact ⟨_, List.mem_cons_self, .overLimit hr ht hn hs⟩
        · rw [if_neg hn]
          by_cases hk : 2^63 ≤ k
          · rw [if_pos hk]
            exact ⟨_, List.mem_cons_self, .largeTimes hr ht (Nat.le_of_not_lt hn) hk⟩
          · rw [if_neg hk]
            refine ⟨?_, ?_⟩
            · rw [unrolledBlock_loop hr, timesOf_eq ht]
            · intro b hb
              rcases List.mem_cons.mp hb with rfl | hb
              · exact loop_not_faulty hr ht (Nat.le_of_not_lt hn) (Nat.lt_of_not_le hk)
              · exact hnone b hb

end Block

mutual
/-- Compiling a block gives its unrolled lines, or fails with what is wrong in it. -/
theorem block_accounts (n : Nat) (b : Block) :
    Accounts n ((within n).block b) (unrolledBlock b) (reachedBlock b) := by
  match b with
  | .mk type fields statements inputs =>
    have hrule : rule? (.mk type fields statements inputs) =
      Json.lookup standard.statements type := rfl
    have hlook : Json.lookup (within n).statements type =
      Json.lookup standard.statements type := rfl
    -- a block of another rule than these two has nothing that could be wrong
    have hsound (r : Option Rule) (hr : Json.lookup standard.statements type = r)
        (hl : r ≠ some .loop) (hc : ∀ keyword field, r ≠ some (.counted keyword field)) (f : Fault) :
        ¬Faulty n (.mk type fields statements inputs) f := by
      refine not_faulty (by rw [hrule, hr]; exact hl) ?_ f
      intro keyword field i hk
      exact (hc keyword field (by rw [← hr, ← hrule, hk])).elim
    rw [Compiler.block, hlook, unrolledBlock, reachedBlock]
    cases hr : Json.lookup standard.statements type with
    | none => exact .single (hsound _ hr (by simp) (by simp))
    | some rule =>
      cases rule with
      | bare keyword => exact .single (hsound _ hr (by simp) (by simp))
      | counted keyword field => exact accounts_counted (hrule.trans hr)
      | loop =>
        have hloop := hrule.trans hr
        rw [← unrolledBlock_loop hloop]
        exact accounts_loop hloop (body_accounts n statements)
      | branch =>
        exact (body_accounts n statements).wrap (hsound _ hr (by simp) (by simp))
          ["IF " ++ standard.condition inputs] ["END_IF"]
      | constant lines => exact .single (hsound _ hr (by simp) (by simp))

theorem body_accounts (n : Nat) (statements : List (String × List Block)) :
    Accounts n ((within n).body statements) (unrolledBody statements)
      (reachedBody statements) := by
  match statements with
  | [] => exact .nil
  | (slot, bs) :: rest =>
    rw [Compiler.body, unrolledBody, reachedBody]
    by_cases hs : slot = "DO"
    · rw [if_pos hs, if_pos hs, if_pos hs]
      exact sequence_accounts n bs
    · rw [if_neg hs, if_neg hs, if_neg hs]
      exact body_accounts n rest

theorem sequence_accounts (n : Nat) (bs : List Block) :
    Accounts n ((within n).sequence bs) (unrolled bs) (reached bs) := by
  match bs with
  | [] => exact .nil
  | b :: bs =>
    rw [Compiler.sequence, unrolled, reached]
    exact (block_accounts n b).append (sequence_accounts n bs)
end

end Courier.Program
