import Courier.Program.Literal
import Courier.Proofs.Interpreter.Execution

namespace Courier.Program

/-- The count that a field gives, one without the field. -/
def countOf? (fields : Json.Members) (field : String) : Option Int :=
  match (Json.lookup fields field).getD (.int 1) with
  | .bool b => some (if b then 1 else 0)
  | .number n => n.toInt?
  | _ => none

def countOf (fields : Json.Members) (field : String) : Int := (countOf? fields field).getD 0

/-- What is shown of a count on a line is its numeral. -/
theorem literal_countOf {fields : Json.Members} {field : String} {i : Int}
    (h : countOf? fields field = some i) :
    literal ((Json.lookup fields field).getD (.int 1)) = integerText i := by
  unfold countOf? at h
  generalize (Json.lookup fields field).getD (.int 1) = v at h
  cases v with
  | bool b =>
    obtain rfl := Option.some.inj h
    cases b <;> rfl
  | number m =>
    dsimp only at h
    simp only [literal, h]
  | null => cases h
  | text s => cases h
  | list vs => cases h
  | object ms => cases h

theorem integerText_short {i : Int}
    (hd : (Nat.toDigits 10 i.natAbs).length ≤ Number.maxDigits) :
    integerText i = .ok (toString i) := by
  rw [integerText, if_neg (Nat.not_lt_of_le hd)]

theorem integerText_long {i : Int}
    (hd : Number.maxDigits < (Nat.toDigits 10 i.natAbs).length) :
    integerText i = .error (.number .tooLongToWrite) := by
  rw [integerText, if_pos hd]

/-- How often a loop performs its body. -/
def timesOf (fields : Json.Members) : Nat :=
  ((integer? ((Json.lookup fields "TIMES").getD (.int 0))).getD 0).toNat

/-- Whether the condition of a branch is true where the agent stands now. A condition that is absent
or unknown is false. -/
def isTrue (inputs : List (String × Block)) (x : Stage) : Bool :=
  match Json.lookup inputs "CONDITION" with
  | some b => b.type = "is_wall_ahead" && x.engine.world.isWall (x.engine.committed.ahead 1)
  | none => false

def performAct (a : Action) (x : Stage) : Except Fault Stage :=
  (x.act a).1.map (fun _ => (x.act a).2)

def performWait (t : WaitSettings) (units : Int) (x : Stage) : Except Fault Stage := do
  let seconds ← t.seconds (.int units)
  (x.wait seconds).1.map (fun _ => (x.wait seconds).2)

/-- What a block without a body does; nothing, if its type is not known. -/
def performDeed (t : WaitSettings) (type : String) (fields : Json.Members) :
    Stage → Except Fault Stage :=
  match type with
  | "move_forward" => performAct (.move false (countOf fields "CELLS"))
  | "move_backward" => performAct (.move true (countOf fields "CELLS"))
  | "turn_left" => performAct (.turn true)
  | "turn_right" => performAct (.turn false)
  | "pickup" => performAct .pickup
  | "dropoff" => performAct .dropoff
  | "wait" => performWait t (countOf fields "SECONDS")
  | _ => .ok

def performTimes (f : Stage → Except Fault Stage) : Nat → Stage → Except Fault Stage
  | 0, x => .ok x
  | n+1, x => do performTimes f n (← f x)

mutual
def performBlock (t : WaitSettings) : Block → Stage → Except Fault Stage
  | .mk type fields statements inputs, x =>
    if type = "repeat_n_times" then
      performTimes (fun x => performBody t statements x) (timesOf fields) x
    else if type = "if_then" then
      if isTrue inputs x then performBody t statements x else .ok x
    else performDeed t type fields x

def performBody (t : WaitSettings) : List (String × List Block) → Stage → Except Fault Stage
  | [], x => .ok x
  | (slot, bs) :: rest, x => if slot = "DO" then perform t bs x else performBody t rest x

def perform (t : WaitSettings) : List Block → Stage → Except Fault Stage
  | [], x => .ok x
  | b :: bs, x => do perform t bs (← performBlock t b x)
end

section Perform

variable {t : WaitSettings} {type : String} {fields : Json.Members}
  {statements : List (String × List Block)} {inputs : List (String × Block)}

theorem performBlock_loop : performBlock t (.mk "repeat_n_times" fields statements inputs) =
    performTimes (performBody t statements) (timesOf fields) := by
  funext x
  rw [performBlock, if_pos rfl]

theorem performBlock_branch : performBlock t (.mk "if_then" fields statements inputs) =
    fun x => if isTrue inputs x then performBody t statements x else .ok x := by
  funext x
  rw [performBlock, if_neg (by decide), if_pos rfl]

theorem performBlock_deed (hloop : type ≠ "repeat_n_times") (hif : type ≠ "if_then") :
    performBlock t (.mk type fields statements inputs) = performDeed t type fields := by
  funext x
  rw [performBlock, if_neg hloop, if_neg hif]

theorem performBody_do {bs : List Block} :
    performBody t (("DO", bs) :: statements) = perform t bs := by
  funext x
  rw [performBody, if_pos rfl]

theorem performBody_skip {slot : String} (hs : slot ≠ "DO") {bs : List Block} :
    performBody t ((slot, bs) :: statements) = performBody t statements := by
  funext x
  rw [performBody, if_neg hs]

end Perform

/-- A field that counts, with a positive integer. -/
def Counts (fields : Json.Members) (field : String) : Prop :=
  ∃ n : Nat, 0 < n ∧ countOf? fields field = some n

/-- The counts of a block without a body are positive, and its wait ends. -/
def IsDeed (t : WaitSettings) (type : String) (fields : Json.Members) : Prop :=
  match type with
  | "move_forward" => Counts fields "CELLS"
  | "move_backward" => Counts fields "CELLS"
  | "wait" => Counts fields "SECONDS" ∧ t.IsTimely (countOf fields "SECONDS").toNat
  | _ => True

mutual
/-- The counts of all actions in a block are positive, and all its waits end. -/
def IsCountedBlock (t : WaitSettings) : Block → Prop
  | .mk type fields statements _ =>
    if type = "repeat_n_times" ∨ type = "if_then" then IsCountedBody t statements
    else IsDeed t type fields

def IsCountedBody (t : WaitSettings) : List (String × List Block) → Prop
  | [] => True
  | (slot, bs) :: rest => if slot = "DO" then IsCounted t bs else IsCountedBody t rest

def IsCounted (t : WaitSettings) : List Block → Prop
  | [] => True
  | b :: bs => IsCountedBlock t b ∧ IsCounted t bs
end

end Courier.Program
