import Courier.Files.Path
import Courier.Files.Table
import Courier.Run.Drawing

namespace Courier

inductive Content
  | text (s : String)
  | table (t : Table)
  | drawing (d : Drawing)

structure Store where
  directory : List String
  files : List (List String × Content)
  made : List (List String)

namespace Store

def file? (s : Store) (names : List String) : Option Content :=
  (s.files.find? (·.1 = names)).map (·.2)

/-- Whether names lead to a directory: one that was made, or one on the way to a file. -/
def isDirectory (s : Store) (names : List String) : Bool :=
  names.isPrefixOf s.directory || s.made.any names.isPrefixOf
    || s.files.any (fun f => names.isPrefixOf f.1 && names ≠ f.1)

def nameLimit : Nat := 255

/-- The least number of bytes that a path does not have. -/
def pathLimit : Nat := 4096

/-- A path that can be looked up has no null character and is not too long. -/
def checkPath (p : Path) : Except Fault Unit :=
  if p.names.any Path.hasNull then .error .nullInPath
  else if pathLimit ≤ p.text.utf8ByteSize then .error .longName
  else .ok ()

/-- Follows names from a directory; all must be directories. -/
def enter (s : Store) : List String → List String → Except Fault (List String)
  | done, [] => .ok done
  | done, ".." :: names => enter s done.dropLast names
  | done, name :: names =>
    let next := done ++ [name]
    if nameLimit < name.utf8ByteSize then .error .longName
    else if s.isDirectory next then enter s next names
    else if (s.file? next).isSome then .error .notDirectory
    else .error .missingFile

def origin (s : Store) (p : Path) : List String := if p.isAbsolute then [] else s.directory

/-- The names of the file that a path names, in a directory that is there. -/
def place (s : Store) (p : Path) : Except Fault (List String) := do
  checkPath p
  match p.names.getLast? with
  | none => .error .isDirectory
  | some ".." => do
    let _ ← s.enter (s.origin p) p.names
    .error .isDirectory
  | some name =>
    let names := (← s.enter (s.origin p) p.names.dropLast) ++ [name]
    if nameLimit < name.utf8ByteSize then .error .longName
    else if s.isDirectory names then .error .isDirectory else return names

def readText (s : Store) (p : Path) : Except Fault String := do
  match s.file? (← s.place p) with
  | some (.text t) => return t
  | some _ => return ""
  | none => .error .missingFile

def put (s : Store) (names : List String) (c : Content) : Store :=
  if (s.file? names).isSome then
    { s with files := s.files.map (fun f => if f.1 = names then (names, c) else f) }
  else { s with files := s.files ++ [(names, c)] }

def write (s : Store) (p : Path) (c : Content) : Except Fault Store := do
  return s.put (← s.place p) c

def makeWay (s : Store) : List String → List String → Except Fault Store
  | _, [] => .ok s
  | done, ".." :: names => makeWay s done.dropLast names
  | done, name :: names =>
    let next := done ++ [name]
    if nameLimit < name.utf8ByteSize then .error .longName
    else if (s.file? next).isSome then .error (if names.isEmpty then .fileExists else .notDirectory)
    else if s.isDirectory next then makeWay s next names
    else makeWay { s with made := s.made ++ [next] } next names

def makeDirectory (s : Store) (p : Path) : Except Fault Store := do
  checkPath p
  s.makeWay (s.origin p) p.names

def newSince (s old : Store) : List (List String × Content) :=
  s.files.filter (fun f => (old.file? f.1).isNone)

/-- The files that another store does not have with the same content. -/
def changedSince (s old : Store) : List (List String × Content) :=
  s.files.filter (fun f =>
    match old.file? f.1, f.2 with
    | some (.text t), .text u => t ≠ u
    | _, _ => true)

/-- The name of a file in the working directory, seen from there. -/
def localName? (s : Store) (names : List String) : Option String :=
  if s.directory.isPrefixOf names then
    some ("/".intercalate (names.drop s.directory.length))
  else none

end Store

end Courier
