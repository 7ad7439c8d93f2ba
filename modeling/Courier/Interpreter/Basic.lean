import Courier.Engine.Action
import Courier.Engine.Token
import Courier.Instruction.Parser
import Courier.Interpreter.Condition

namespace Courier

structure StepResult where
  instruction : Instruction
  skipped : Bool
  condition : Option Bool
  moved : Option Int
  effective : Option Bool
  deriving DecidableEq

namespace StepResult

def plain (i : Instruction) : StepResult := ⟨i, false, none, none, none⟩

def skip (i : Instruction) : StepResult := { plain i with skipped := true }

def ofAnswer (i : Instruction) : Answer → StepResult
  | .moved cells => { plain i with moved := some cells }
  | .turned => plain i
  | .handled done => { plain i with effective := some done }

end StepResult

structure Interpreter where
  settings : WaitSettings
  conditions : List (String × Condition)
  /-- The open branches, the innermost first. -/
  branches : List Bool

/-- What an instruction asks for once it is read. -/
inductive Demand
  | finished (r : StepResult)
  | act (a : Action)
  | wait (seconds : Number)

/-- How an instruction begins: the condition evaluated for it, the line skipped, and what it asks
for, with the branches open from now on. -/
structure Opening where
  evaluated : Option String
  skipped : Option String
  result : Except Fault (Instruction × Demand × List Bool)

namespace Interpreter

def make (settings : WaitSettings) (conditions : List (String × Condition)) : Interpreter :=
  ⟨settings, Condition.table conditions, []⟩

def depth (t : Interpreter) : Nat := t.branches.length

/-- Whether the innermost branch is false. -/
def isSkipping (t : Interpreter) : Bool := t.branches.head? = some false

def reset (t : Interpreter) : Interpreter := { t with branches := [] }

theorem make_reset {t : Interpreter} (ht : t.conditions ≠ []) :
    make t.settings t.conditions = t.reset := by
  simp [make, reset, Condition.table, ht]

def register (t : Interpreter) (name : String) (c : Condition) : Interpreter :=
  { t with conditions := Condition.register t.conditions name c }

def checkBalanced (t : Interpreter) : Except Fault Unit :=
  if t.branches.isEmpty then .ok () else .error (.instruction (.unclosed t.depth))

/-- The action or wait of a command that is neither skipped nor a branch. -/
def demand (t : Interpreter) (i : Instruction) : Except Fault Demand :=
  match i.command with
  | .moveForward cells => .ok (.act (.move false cells))
  | .moveBackward cells => .ok (.act (.move true cells))
  | .turnLeft => .ok (.act (.turn true))
  | .turnRight => .ok (.act (.turn false))
  | .pickup => .ok (.act .pickup)
  | .dropoff => .ok (.act .dropoff)
  | .wait units => do return .wait (← t.settings.seconds (.int units))
  | .branch _ => .ok (.finished (.plain i))
  | .endBranch => .ok (.finished (.plain i))

/-- Opens a branch. Its condition is evaluated only if no enclosing branch is false. -/
def openBranch (t : Interpreter) (scene : Scene) (i : Instruction) (name : String) : Opening :=
  match Json.lookup t.conditions name with
  | none => ⟨none, none, .error (.instruction (.unknownCondition name i.text))⟩
  | some c =>
    if t.isSkipping then
      ⟨none, none, .ok (i, .finished { StepResult.skip i with condition := some false },
        false :: t.branches)⟩
    else
      ⟨c.label, none, do
        let value ← c.test scene
        return (i, .finished { StepResult.plain i with condition := some value },
          value :: t.branches)⟩

def openInstruction (t : Interpreter) (scene : Scene) (i : Instruction) : Opening :=
  match i.command with
  | .branch name => t.openBranch scene i name
  | .endBranch =>
    match t.branches with
    | [] => ⟨none, none, .error (.instruction (.unopened i.text))⟩
    | _ :: branches => ⟨none, none, .ok (i, .finished (.plain i), branches)⟩
  | _ =>
    if t.isSkipping then ⟨none, some i.text, .ok (i, .finished (.skip i), t.branches)⟩
    else ⟨none, none, (t.demand i).map (fun d => (i, d, t.branches))⟩

/-- Begins a line. It is read first; a cancelled token fails next. -/
def openLine (t : Interpreter) (token : Token) (scene : Scene) (line : String) : Opening :=
  match (do
    let i ← Instruction.parse line
    token.check
    return i) with
  | .ok i => t.openInstruction scene i
  | .error f => ⟨none, none, .error f⟩

def skipText (text : String) : String :=
  "Skipping " ++ Text.quoted text ++ " inside a false branch"

end Interpreter

end Courier
