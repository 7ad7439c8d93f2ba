import Courier.Files.Path
import Courier.Settings.Wait

namespace Courier

structure RunSettings where
  level : Json.Value
  levelPath : Option Path
  programPath : Option Path
  instructionsPath : Option Path
  /-- The directory of all runs; without one nothing can be run. -/
  outDirectory : Option Path
  motion : MotionSettings
  wait : WaitSettings
  writeTrace : Bool
  drawWay : Bool

namespace RunSettings

def standard : RunSettings where
  level := .text "level1"
  levelPath := none
  programPath := none
  instructionsPath := none
  outDirectory := some (Path.parse "data/runs")
  motion := .standard
  wait := .standard
  writeTrace := true
  drawWay := false

/-- Settings as they are, if they fit together. -/
def check (s : RunSettings) : Except Fault RunSettings := do
  require (s.programPath.isNone || s.instructionsPath.isNone) .twoSources
  require (s.level.isFilled || s.levelPath.isSome) .noLevel
  return s

def fieldNames : List String :=
  ["level", "level_path", "program_path", "instructions_path", "out_dir", "motion", "interpreter",
   "write_trace", "render_png"]

def pathField (fields : Json.Members) (key : String) (default : Option Path) :
    Except Fault (Option Path) :=
  match Json.lookup fields (.text key) with
  | none => .ok default
  | some .null => .ok none
  | some (.text t) => .ok (some (Path.parse t))
  | some _ => .error (.shape .kind)

def withPaths (fields : Json.Members) (s : RunSettings) : Except Fault RunSettings := do
  return { s with
    levelPath := ← pathField fields "level_path" s.levelPath
    programPath := ← pathField fields "program_path" s.programPath
    instructionsPath := ← pathField fields "instructions_path" s.instructionsPath
    outDirectory := ← pathField fields "out_dir" s.outDirectory }

def withTimings (fields : Json.Members) (s : RunSettings) : Except Fault RunSettings := do
  let motion ← ((Json.lookup fields "motion").map MotionSettings.ofValue).getD (.ok s.motion)
  let wait ← ((Json.lookup fields "interpreter").map WaitSettings.ofValue).getD (.ok s.wait)
  return { s with motion, wait }

/-- Settings with the rest of some named values, all of which must be fields. -/
def withRest (fields : Json.Members) (s : RunSettings) : Except Fault RunSettings := do
  checkFieldNames fields fieldNames
  let flag (key : Json.Key) (default : Bool) : Bool :=
    ((Json.lookup fields key).map Json.Value.isFilled).getD default
  check { s with
    level := (Json.lookup fields "level").getD s.level
    writeTrace := flag "write_trace" s.writeTrace
    drawWay := flag "render_png" s.drawWay }

end RunSettings

end Courier
