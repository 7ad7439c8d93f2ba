import Courier.Cli.Arguments
import Courier.Grid.Level

namespace Courier.Cli

/-- The name of the program in its own output. -/
def programName : String := "gridbot"

def helpOption : OptionSpec := ⟨"help", ["-h", "--help"], .help, none⟩

def textOption (key name : String) : OptionSpec := ⟨key, [name], .text, none⟩

/-- An option with a second name for no. -/
def switchOption (key name : String) : OptionSpec :=
  ⟨key, ["--" ++ name, "--no-" ++ name], .switch, none⟩

def generalOptions : List OptionSpec :=
  [helpOption, ⟨"log_level", ["--log-level"], .choice ["DEBUG", "INFO", "WARNING", "ERROR"], none⟩]

def levelOptions : List OptionSpec :=
  [⟨"level", ["--level"], .choice Level.names, some "level_file"⟩,
   ⟨"level_file", ["--level-file"], .text, some "level"⟩]

def compileCommand : Command where
  name := "compile"
  options := [helpOption, textOption "program" "--program", textOption "output" "--output"]
  required := ["program"]

def runCommand : Command where
  name := "run"
  options :=
    [helpOption, textOption "config" "--config",
     ⟨"program", ["--program"], .text, some "instructions"⟩,
     ⟨"instructions", ["--instructions"], .text, some "program"⟩]
    ++ levelOptions ++
    [textOption "out_dir" "--out-dir", textOption "run_id" "--run-id",
     ⟨"time_scale", ["--time-scale"], .float, none⟩, ⟨"frames", ["--frames"], .integer, none⟩,
     switchOption "trace" "trace", switchOption "render_png" "render-png"]
  required := []

def checkCommand : Command where
  name := "check-level"
  options := helpOption :: levelOptions
  required := []

def commands : List Command := [compileCommand, runCommand, checkCommand]

structure Invocation where
  command : Command
  general : Arguments
  arguments : Arguments

/-- What the program, or one of its commands, refuses. -/
structure Refusal where
  command : Option String
  cause : ArgumentStop

def OptionSpec.usage (o : OptionSpec) : String :=
  "[" ++ " | ".intercalate o.names ++ (if o.takesValue then " " ++ o.key.toUpper else "") ++ "]"

def usage (command : Option String) : String :=
  let line (name : String) (os : List OptionSpec) (rest : List String) : String :=
    " ".intercalate ("usage:" :: name :: os.map OptionSpec.usage ++ rest)
  match command.bind (fun name => commands.find? (·.name = name)) with
  | some c => line (programName ++ " " ++ c.name) c.options []
  | none => line programName generalOptions (commands.map (·.name))

/-- Reads arguments. Those that nothing accepts are refused last of all. -/
def Invocation.read (ss : List String) : Except Refusal Invocation := do
  let ps ← (pieces generalOptions ss).mapError (⟨none, .fault ·⟩)
  let (general, rest) ← (findCommand generalOptions .start ps).mapError (⟨none, ·⟩)
  match rest with
  | [] => throw ⟨none, .fault (.required ["command"])⟩
  | name :: rest =>
    match commands.find? (·.name = name) with
    | none => throw ⟨none, .fault (.notAChoice "command" name (commands.map (·.name)))⟩
    | some command =>
      let arguments ← (command.read rest).mapError (⟨some name, ·⟩)
      match general.extras ++ arguments.extras with
      | [] => return ⟨command, general, arguments⟩
      | extras => throw ⟨none, .fault (.unrecognized extras)⟩

end Courier.Cli
