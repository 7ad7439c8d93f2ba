import Courier.Cli.Execute
import Courier.Files.Document

namespace Courier

def loadFile (s : Store) (p : Path) : IO Store := do
  try
    let text ← IO.FS.readFile p.text
    let loaded : Except Fault Store := do
      (← s.makeDirectory p.parent).write p (.text text)
    return loaded.toOption.getD s
  catch _ => return s

def loadFiles (s : Store) (ps : List Path) : IO Store := ps.foldlM loadFile s

def loadInputs (s : Store) (i : Cli.Invocation) : IO Store := do
  let s ← loadFiles s (Cli.namedPaths (i.arguments.values.map (·.2)))
  match Cli.readConfiguration s (i.arguments.path? "config").toOption.join with
  | .ok file => loadFiles s (Cli.namedPaths (file.map (·.2)))
  | .error _ => return s

def storeFile (f : List String × Content) : IO Unit := do
  let path := Path.ofNames f.1
  IO.FS.createDirAll path.parent.text
  IO.FS.writeFile path.text f.2.onDisk

def runProgram (args : List String) : IO UInt32 := do
  let directory := (Path.parse (← IO.currentDir).toString).names
  let start : Store := ⟨directory, [], []⟩
  let old ← match Cli.Invocation.read args with
    | .ok i => loadInputs start i
    | .error _ => pure start
  let (ending, new) := Cli.execute args old
  (new.changedSince old).forM storeFile
  match ending with
  | .done output =>
    IO.print output
    return 0
  | .refused complaint =>
    IO.eprintln complaint
    return 2
  | .broken f =>
    IO.eprintln f.message
    return 1

end Courier

def main (args : List String) : IO UInt32 := Courier.runProgram args
