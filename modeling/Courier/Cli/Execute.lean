import Courier.Cli.Configuration
import Courier.Grid.Reach

namespace Courier.Cli

open Json (Value)

/-- Work on a store that fails with a cause; what it has written by then stays. -/
abbrev Session (α : Type) := ExceptT Failure (StateM Store) α

def Session.ofFiles {α : Type} (m : OnFiles α) : Session α := fun s =>
  let (r, s) := m s
  (r.mapError .fault, s)

instance : MonadLift OnFiles Session := ⟨Session.ofFiles⟩

/-- The program file as lines, written or shown. -/
def compile (a : Arguments) : Session String := do
  let program := (← liftM (a.path? "program")).getD (Path.parse "")
  let text ← OnFiles.readText program
  let blocks ← liftM (Program.load program.text text)
  let lines ← liftM (Program.Compiler.standard.compile blocks)
  let text := Text.joinLines lines
  match a.value "output" with
  | .null => return text
  | .text output =>
    let output := Path.parse output
    OnFiles.makeDirectory output.parent
    OnFiles.write output (.text text)
    return Json.write true (.object [("output", .text output.text),
      ("instructions", .int (text.toList.count '\n'))]) ++ "\n"
  | _ => liftM (Except.error (.shape .memberless) : Except Fault String)

/-- A run from files to files. -/
def run (a : Arguments) : Session String := do
  let configuration ← liftM (a.path? "config")
  let file ← liftM (readConfiguration (← get) configuration)
  let (settings, runId) ← liftM (Sources.settings ⟨a, file⟩)
  let report ← runHeadless settings (.text runId)
  return Json.write false report ++ "\n"

def cellValue (c : Cell) : Value := .list [.int c.1, .int c.2]

/-- The moves from a start to the nearest cell beside a pickup. -/
def movesToPickup? (f : PathFinder) (w : World) (start : Cell) : Option Nat :=
  let goals := (w.cellsOfKind .pickup).flatMap w.neighbors
  (goals.filterMap (w.distanceBy? f start)).min?

def levelReport (f : PathFinder) (w : World) : Value :=
  let start := (Stance.start w.height).cell
  let cells (k : Kind) : Value := .list ((w.cellsOfKind k).map cellValue)
  .object [("width", .int w.width), ("height", .int w.height), ("start", cellValue start),
    ("start_enterable", .bool (w.canEnter start)), ("pickups", cells .pickup),
    ("dropoffs", cells .dropoff), ("solvable", .bool (w.isSolvableBy f start)),
    ("walls", .int (w.cellsOfKind .wall).length),
    ("moves_to_pickup", Table.optional (fun (n : Nat) => .int n) (movesToPickup? f w start))]

def checkLevel (a : Arguments) : Session String := do
  let world ← match ← liftM (a.path? "level_file") with
    | some p => do
      let text ← OnFiles.readText p
      liftM (Level.load p.text text)
    | none =>
      let level := a.value "level"
      liftM (Level.builtinOf (if level.isFilled then level else RunSettings.standard.level))
  return Json.write false (levelReport .layered world) ++ "\n"

def perform (i : Invocation) : Session String :=
  match i.command.name with
  | "compile" => compile i.arguments
  | "run" => run i.arguments
  | _ => checkLevel i.arguments

inductive Ending
  | done (output : String)
  /-- A complaint, which may span lines. -/
  | refused (complaint : String)
  /-- A failure that is none of the user's input. -/
  | broken (f : Fault)

/-- Whether a fault comes from the content of the input, so that a command reports it. -/
def isReported : Fault → Bool
  | .compile _ | .format _ | .instruction _ | .value _ | .cancelled _ => true
  | .opcode _ | .cellKind _ | .longInteger _ | .nullInPath => true
  | .shape cause => cause = .array
  | .number cause =>
    match cause with
    | .nanToInteger | .notIntegerText _ | .notNumberText _ | .tooManyDigits _ => true
    | .tooLongToWrite => true
    | _ => false
  | _ => false

def complaint (command : Option String) (message : String) : String :=
  (match command with
    | some name => programName ++ " " ++ name
    | none => programName) ++ ": error: " ++ message

def Refusal.ending (r : Refusal) : Ending :=
  match r.cause with
  | .help => .done (usage r.command ++ "\n")
  | .fault f => .refused (complaint r.command f.message)

def Failure.ending (command : String) : Failure → Ending
  | .usage cause => .refused (complaint none cause.message)
  | .fault f =>
    if isReported f then .refused (complaint (some command) f.message) else .broken f

/-- The level of the log, if it is given, is a word. -/
def Invocation.checkLogLevel (i : Invocation) : Except Fault Unit :=
  match i.general.value "log_level" with
  | .list _ => .error (.shape .kind)
  | _ => .ok ()

def execute (ss : List String) (s : Store) : Ending × Store :=
  match Invocation.read ss with
  | .error r => (r.ending, s)
  | .ok i =>
    match i.checkLogLevel, perform i s with
    | .error f, _ => (.broken f, s)
    | .ok (), (.ok output, s) => (.done output, s)
    | .ok (), (.error f, s) => (f.ending i.command.name, s)

end Courier.Cli
