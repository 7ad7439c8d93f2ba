import Courier.Program.Literal
import Courier.Text.Lines

namespace Courier.Program

/-- How a statement block becomes lines. -/
inductive Rule
  /-- The keyword alone. -/
  | bare (keyword : String)
  /-- The keyword and the literal of a field. -/
  | counted (keyword field : String)
  /-- The body as often as a count says. -/
  | loop
  /-- The body under a condition. -/
  | branch
  | constant (lines : List String)

/-- The rules by block type: statements give lines, values give conditions. -/
structure Compiler where
  statements : List (String × Rule)
  values : List (String × String)
  /-- The most lines that a program may have, a number. -/
  limit : Json.Value

namespace Compiler

def defaultStatements : List (String × Rule) :=
  [("move_forward", .counted "MOVE_FORWARD" "CELLS"),
   ("move_backward", .counted "MOVE_BACKWARD" "CELLS"),
   ("turn_left", .bare "TURN_LEFT"),
   ("turn_right", .bare "TURN_RIGHT"),
   ("pickup", .bare "PICKUP"),
   ("dropoff", .bare "DROPOFF"),
   ("wait", .counted "WAIT" "SECONDS"),
   ("repeat_n_times", .loop),
   ("if_then", .branch)]

def defaultValues : List (String × String) :=
  [("is_wall_ahead", "IS_WALL_AHEAD")]

def standard : Compiler := ⟨defaultStatements, defaultValues, .int 10000⟩

/-- A compiler with the given rules; an empty list of rules stands for the default one. -/
def make (statements : List (String × Rule)) (values : List (String × String))
    (limit : Json.Value) : Except Fault Compiler :=
  match limit.number? with
  | none => .error (.shape .kind)
  | some n =>
    if n.lt (.int 1) then .error (.value .instructionLimit)
    else .ok {
      statements := if statements.isEmpty then defaultStatements else statements
      values := if values.isEmpty then defaultValues else values
      limit }

def extend (c : Compiler) (statements : List (String × Rule)) (values : List (String × String))
    (limit : Json.Value) : Except Fault Compiler :=
  make (statements.foldl (fun rs r => Json.insert rs r.1 r.2) c.statements)
    (values.foldl (fun rs r => Json.insert rs r.1 r.2) c.values) limit

def registry (c : Compiler) : List String × List String :=
  ((c.statements.map (·.1)).mergeSort (· ≤ ·), (c.values.map (·.1)).mergeSort (· ≤ ·))

/-- The condition of a block, false where it has none or the text is empty. -/
def condition (c : Compiler) (inputs : List (String × Block)) : String :=
  match Json.lookup inputs "CONDITION" with
  | none => "FALSE"
  | some b =>
    match Json.lookup c.values b.type with
    | none => "FALSE"
    | some text => if text.isEmpty then "FALSE" else text

/-- Whether a number of lines is over the limit. -/
def exceeds (c : Compiler) (lines : Nat) : Bool :=
  (c.limit.number?.map (fun limit => limit.lt (.int lines))).getD false

/-- A body unrolled, within the limit. -/
def unroll (c : Compiler) (times : Nat) (body : List String) : Except Fault (List String) :=
  if times ≠ 0 ∧ c.exceeds (body.length*times) then
    if Nat.toDigits 10 (body.length*times) |>.length |> (Number.maxDigits < ·) then
      .error (.number .tooLongToWrite)
    else .error (.compile (.loopTooLong (body.length*times) c.limit))
  else if 1 <<< 63 ≤ times then .error (.number .countOutOfRange)
  else if body.isEmpty then .ok []
  else .ok (List.replicate times body).flatten

mutual
def block (c : Compiler) : Block → Except Fault (List String)
  | .mk type fields statements inputs =>
    match Json.lookup c.statements type with
    | none => .ok []
    | some (.bare keyword) => .ok [keyword]
    | some (.counted keyword field) => do
      let text ← literal ((Json.lookup fields field).getD (.int 1))
      return [keyword ++ " " ++ text]
    | some .loop => do
      let times ← loopCount (.mk type fields statements inputs) "TIMES"
      c.unroll times (← body c statements)
    | some .branch => do
      let lines ← body c statements
      return ("IF " ++ c.condition inputs) :: lines ++ ["END_IF"]
    | some (.constant lines) => .ok lines

def body (c : Compiler) : List (String × List Block) → Except Fault (List String)
  | [] => .ok []
  | (slot, bs) :: rest => if slot = "DO" then sequence c bs else body c rest

def sequence (c : Compiler) : List Block → Except Fault (List String)
  | [] => .ok []
  | b :: bs => do
    let lines ← block c b
    return lines ++ (← sequence c bs)
end

/-- The lines of a program, within the limit. -/
def compile (c : Compiler) (p : Program) : Except Fault (List String) := do
  let lines ← c.sequence p
  if c.exceeds lines.length then .error (.compile (.programTooLong lines.length c.limit))
  else return lines

def compileText (c : Compiler) (p : Program) : Except Fault String :=
  return Text.joinLines (← c.compile p)

end Compiler

/-- What a compiler remarks on while it goes on. -/
inductive Notice
  | valueAsStatement (type : String)
  | unknownStatement (type : String)
  | unknownValue (type : String)
  deriving DecidableEq

def Notice.message : Notice → String
  | .valueAsStatement type =>
    "Value block " ++ Text.quoted type ++ " used as a statement; ignoring"
  | .unknownStatement type =>
    "No compile rule for block type " ++ Text.quoted type ++ "; skipping"
  | .unknownValue type => "No condition rule for block type " ++ Text.quoted type

namespace Compiler

def conditionNotices (c : Compiler) (inputs : List (String × Block)) : List Notice :=
  match Json.lookup inputs "CONDITION" with
  | none => []
  | some b => if (Json.lookup c.values b.type).isSome then [] else [.unknownValue b.type]

mutual
def blockNotices (c : Compiler) : Block → List Notice
  | .mk type fields statements inputs =>
    match Json.lookup c.statements type with
    | none =>
      if (Json.lookup c.values type).isSome then [.valueAsStatement type]
      else [.unknownStatement type]
    | some .loop =>
      if (loopCount (.mk type fields statements inputs) "TIMES").isOk then
        bodyNotices c statements
      else []
    | some .branch => c.conditionNotices inputs ++ bodyNotices c statements
    | some _ => []

def bodyNotices (c : Compiler) : List (String × List Block) → List Notice
  | [] => []
  | (slot, bs) :: rest => if slot = "DO" then notices c bs else bodyNotices c rest

/-- The notices on blocks in order, up to the first one that does not compile. -/
def notices (c : Compiler) : List Block → List Notice
  | [] => []
  | b :: bs =>
    blockNotices c b ++ (if (c.block b).isOk then notices c bs else [])
end

end Compiler

end Courier.Program
