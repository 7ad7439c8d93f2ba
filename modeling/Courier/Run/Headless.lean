import Courier.Files.Store
import Courier.Grid.Level
import Courier.Program.Compiler
import Courier.Program.Document
import Courier.Run.Outcome
import Courier.Run.Recorder
import Courier.Settings.Run

namespace Courier

/-- Steps on a store; what a failed step has written stays. -/
abbrev OnFiles (α : Type) := ExceptT Fault (StateM Store) α

namespace OnFiles

def readText (p : Path) : OnFiles String := fun s => (s.readText p, s)

def update (f : Store → Except Fault Store) : OnFiles Unit := fun s =>
  match f s with
  | .ok s => (.ok (), s)
  | .error e => (.error e, s)

def write (p : Path) (c : Content) : OnFiles Unit := update (·.write p c)

def makeDirectory (p : Path) : OnFiles Unit := update (·.makeDirectory p)

/-- Lines are kept as a text with a line feed after each, in a directory that is made for it. -/
def writeLines (p : Path) (ls : List String) : OnFiles Unit := do
  makeDirectory p.parent
  write p (.text (Text.joinLines ls))

def readLines (p : Path) : OnFiles (List String) := do
  return Text.filledLines (Text.ofFile (← readText p))

end OnFiles

namespace RunSettings

def loadWorld (s : RunSettings) : OnFiles World := do
  match s.levelPath with
  | some p =>
    let text ← OnFiles.readText p
    liftM (Level.load p.text text)
  | none => liftM (Level.builtinOf s.level)

def loadLines (s : RunSettings) : OnFiles (List String) := do
  match s.instructionsPath, s.programPath with
  | some p, _ => OnFiles.readLines p
  | none, some p =>
    let program ← liftM (Program.load p.text (← OnFiles.readText p))
    liftM (Program.Compiler.standard.compile program)
  | none, none => throw (.value .noSource)

def directory (s : RunSettings) (runId : String) : OnFiles Path := fun store =>
  match s.outDirectory with
  | some base => ((Path.runDirectory .bare store.directory base runId).map Path.ofNames, store)
  | none => (.error (.shape .kind), store)

end RunSettings

def traceTable (runId : String) (ps : List (Pose Binary64)) : Except Fault Table := do
  let r ← Recorder.make (.text runId) Recorder.defaultThreshold
  let recording : Recording Unit := do
    ps.forM Recorder.record
    Recorder.close
  match (recording r).2.file with
  | .finished t => return t
  | _ => return ⟨Table.traceColumns, []⟩

def runName (v : Json.Value) : Except Fault String :=
  match v with
  | .text s => .ok s
  | _ => .error (.shape .kind)

/-- A run with all its files; the report tells how it ended. -/
def runHeadless (s : RunSettings) (id : Json.Value) : OnFiles Json.Value := do
  let world ← s.loadWorld
  let lines ← s.loadLines
  let runId ← liftM (runName id)
  let directory ← s.directory runId
  OnFiles.makeDirectory directory
  OnFiles.writeLines directory.programText lines
  let outcome := Outcome.ofRun (lines.map .text) world none s.motion s.wait
  let poses := (outcome.toOption.map Outcome.poses).getD []
  if s.writeTrace then
    OnFiles.write directory.poseTrace (.table (← liftM (traceTable runId poses)))
  let outcome ← liftM outcome
  let log ← liftM (Table.ofResults (.text runId) outcome.results)
  OnFiles.write directory.runLog (.table log)
  if s.drawWay then
    OnFiles.write directory.traceImage (.drawing (← liftM (Drawing.make world poses runId)))
  let report : Json.Value := .object
    (("run_id", .text runId) :: ("instructions", .int lines.length) :: outcome.summary)
  OnFiles.write directory.summary (.text (Json.write false report))
  return report

end Courier
