import Courier.Cli.Commands
import Courier.Json.Load
import Courier.Run.Headless
import Courier.Settings.Coerce

namespace Courier.Cli

open Json (Value)

/-- Why the options of a run do not make sense together. -/
inductive UsageFault
  | noConfiguration (path : String)
  | malformedConfiguration (cause : FormatFault)
  | configurationShape (path : String)
  | noSource
  | negativeScale

def UsageFault.message : UsageFault → String
  | noConfiguration path => "Config file not found: " ++ path
  | malformedConfiguration cause => cause.message
  | configurationShape path => "Config file must contain a JSON object: " ++ path
  | noSource => "run needs --program or --instructions (on the CLI or in the config file)"
  | negativeScale => "--time-scale must be >= 0"

inductive Failure
  | usage (cause : UsageFault)
  | fault (cause : Fault)

def Arguments.isGiven (a : Arguments) (key : String) : Bool :=
  match a.value key with
  | .null => false
  | _ => true

def Arguments.path? (a : Arguments) (key : String) : Except Fault (Option Path) :=
  match a.value key with
  | .null => .ok none
  | .text s => .ok (some (Path.parse s))
  | _ => .error (.shape .kind)

/-- The paths that settings may stand for. -/
def namedPaths (settings : List Value) : List Path :=
  settings.filterMap (fun v => (Settings.toText? "" v).toOption.join.map Path.parse)

def readConfiguration (store : Store) : Option Path → Except Failure Json.Members
  | none => .ok []
  | some p =>
    match store.readText p with
    | .error .missingFile => .error (.usage (.noConfiguration p.text))
    | .error f => .error (.fault f)
    | .ok text =>
      match Json.load "Config" p.text text with
      | .ok (.object ms) => .ok ms
      | .ok _ => .error (.usage (.configurationShape p.text))
      | .error (.format cause) => .error (.usage (.malformedConfiguration cause))
      | .error f => .error (.fault f)

structure Sources where
  options : Arguments
  file : Json.Members

namespace Sources

def choose (s : Sources) (key : String) (default : Value) : Value :=
  Settings.choose (s.options.value key) key s.file default

def path? (s : Sources) (key : String) : Except Fault (Option Path) :=
  return (← Settings.toText? key (s.choose key .null)).map Path.parse

def bool (s : Sources) (key : String) (default : Bool) : Except Fault Bool :=
  Settings.toBool key (s.choose key (.bool default))

/-- The timing of movements for a time scale; at zero they take no time. -/
def motion (frames : Int) (scale : Binary64) : Except Fault MotionSettings := do
  if Binary64.eq scale (.zero false) then return .instant
  let duration ← MotionSettings.standard.duration.mul (.float scale)
  MotionSettings.ofFields [("frames", .int frames), ("duration", .number duration)]

def settings (s : Sources) : Except Failure (RunSettings × String) := do
  let lift {α : Type} (r : Except Fault α) : Except Failure α := r.mapError .fault
  let program ← lift (s.path? "program")
  let instructions ← lift (s.path? "instructions")
  let isGiven := s.options.isGiven
  let instructionsPath := if isGiven "program" then none else instructions
  let programPath := if isGiven "instructions" && !isGiven "program" then none else program
  if programPath.isNone && instructionsPath.isNone then throw (.usage .noSource)
  let levelFile ← lift (s.path? "level_file")
  let level : Value := .text (s.choose "level" RunSettings.standard.level).plain
  let levelPath := if isGiven "level" then none else levelFile
  let scale ← lift (Settings.toFloat "time_scale" (s.choose "time_scale" (.float (.ofNat 1))))
  let frames ← lift (Settings.toInt "frames" (s.choose "frames" (.int 20)))
  if Binary64.lt scale (.zero false) then throw (.usage .negativeScale)
  lift do
    let motion ← motion frames scale
    let outDirectory := (← s.path? "out_dir") <|> RunSettings.standard.outDirectory
    let wait ← WaitSettings.ofFields [("time_scale", .float scale)]
    let writeTrace ← s.bool "trace" true
    let drawWay ← s.bool "render_png" false
    let settings ← RunSettings.check
      { level, levelPath, programPath, instructionsPath, outDirectory, motion, wait, writeTrace,
        drawWay }
    return (settings, (s.choose "run_id" (.text "run")).plain)

end Sources

end Courier.Cli
