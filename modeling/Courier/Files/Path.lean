import Courier.Fault

namespace Courier

/-- A path; an absolute one begins with one slash, or with exactly two. Its names are made of
characters; code points that stand for none, which a file system may not be able to encode, are left
out. -/
structure Path where
  slashes : Nat
  names : List String
  deriving DecidableEq

namespace Path

def parse (s : String) : Path where
  slashes :=
    match (s.toList.takeWhile (· = '/')).length with
    | 0 => 0
    | 2 => 2
    | _ => 1
  names := (s.splitOn "/").filter (fun n => n ≠ "" ∧ n ≠ ".")

/-- Whether a name holds a null character, which no file has in its name. -/
def hasNull (name : String) : Bool := name.toList.contains '\x00'

def isAbsolute (p : Path) : Bool := p.slashes ≠ 0

def text (p : Path) : String :=
  if p.slashes = 0 ∧ p.names.isEmpty then "."
  else String.ofList (List.replicate p.slashes '/') ++ "/".intercalate p.names

/-- A path seen from a directory. -/
def join (p q : Path) : Path :=
  if q.isAbsolute then q else { p with names := p.names ++ q.names }

def child (p : Path) (name : String) : Path := { p with names := p.names ++ [name] }

def parent (p : Path) : Path := { p with names := p.names.dropLast }

structure Link where
  place : List String
  target : Path

/-- The links among files, and the directories that are there. -/
structure Terrain where
  links : List Link
  directories : List (List String)

namespace Terrain

def bare : Terrain := ⟨[], []⟩

def link? (t : Terrain) (names : List String) : Option Link :=
  t.links.find? (·.place = names)

/-- Whether names lead to a directory: one that was made, or one on the way to it or to a link. -/
def isDirectory (t : Terrain) (names : List String) : Bool :=
  t.directories.any names.isPrefixOf || t.links.any (fun l => names.isPrefixOf l.place.dropLast)

end Terrain

/-- A place on a way, and whether the way has begun at the root. -/
structure Spot where
  rooted : Bool
  names : List String
  deriving DecidableEq

/-- The links met so far: where each leads, or none while it is being followed. -/
abbrev Visits := List (Spot × Option Spot)

/-- The end of a walk. A way is lost at a link that leads back to itself; its names from there on
stand as they are. -/
structure Walked where
  spot : Spot
  lost : Bool
  visits : Visits

/-- The names that stay behind a lost way. -/
def Walked.leave (w : Walked) (names : List String) : Walked :=
  { w with spot := { w.spot with names := w.spot.names ++ names } }

/-- Walks down names from a spot. A double dot goes up, and a link is followed to its end once. The
first argument bounds links inside of links. -/
def walk (t : Terrain) : Nat → Spot → Visits → List String → Except Fault Walked
  | _, s, vs, [] => .ok ⟨s, false, vs⟩
  | bound, s, vs, ".." :: names => walk t bound { s with names := s.names.dropLast } vs names
  | bound, s, vs, name :: names =>
    let next : Spot := { s with names := s.names ++ [name] }
    if hasNull name then .error .nullInPath
    else
      match t.link? next.names with
      | none => walk t bound next vs names
      | some link =>
        match Json.lookup vs next, bound with
        | some (some last), bound => walk t bound last vs names
        | none, inner+1 => do
          let origin : Spot := if link.target.isAbsolute then ⟨true, []⟩ else s
          let w ← walk t inner origin ((next, none) :: vs) link.target.names
          if w.lost then return w.leave names
          else walk t (inner+1) w.spot ((next, some w.spot) :: w.visits) names
        | _, _ => .ok (Walked.leave ⟨next, true, vs⟩ names)
termination_by bound _ _ names => (bound, names.length)

/-- Names without double dots, each of which takes the name before it away. -/
def withoutDots (done : List String) : List String → List String
  | [] => done
  | ".." :: names => withoutDots done.dropLast names
  | name :: names => withoutDots (done ++ [name]) names

/-- Whether looking up names meets more links than can be followed. The look-up ends where there is
no directory. -/
def isEndless (t : Terrain) : Nat → List String → List String → Bool
  | _, _, [] => false
  | follows, done, ".." :: names => isEndless t follows done.dropLast names
  | follows, done, name :: names =>
    match t.link? (done ++ [name]) with
    | none => t.isDirectory (done ++ [name]) && isEndless t follows (done ++ [name]) names
    | some link =>
      match follows with
      | 0 => true
      | follows+1 =>
        isEndless t follows (if link.target.isAbsolute then [] else done)
          (link.target.names ++ names)
termination_by follows _ names => (follows, names.length)

/-- The most links that one look-up follows. -/
def maxFollows : Nat := 40

/-- The names from the root to where a path leads, seen from a directory. A way from the root and
one from the directory may meet the same link, so there are two visits per link at most. -/
def resolve (t : Terrain) (directory : List String) (p : Path) : Except Fault (List String) := do
  let start : Spot := if p.isAbsolute then ⟨true, []⟩ else ⟨false, directory⟩
  let w ← walk t (2*t.links.length) start [] p.names
  let names := withoutDots [] w.spot.names
  if names.any hasNull then throw .nullInPath
  if w.lost && isEndless t maxFollows [] names then throw .linkLoop
  return names

/-- A terrain with one more link, whose own place is reached by way of the links before it. -/
def Terrain.addLink (t : Terrain) (directory : List String) (place target : Path) : Terrain :=
  let way := (resolve t directory place.parent).toOption.getD (directory ++ place.parent.names)
  { t with links := t.links ++ [⟨way ++ place.names.getLast?.toList, target⟩] }

def ofNames (names : List String) : Path := ⟨1, names⟩

/-- Where a path seen from a base leads, if that is the base or inside of it. -/
def resolveWithin (t : Terrain) (directory : List String) (base p : Path) :
    Except Fault (List String) := do
  let resolved ← resolve t directory (base.join p)
  let root ← resolve t directory base
  if root.isPrefixOf resolved then return resolved
  else .error (.value (.pathEscapes p.text))

def poseTrace (directory : Path) : Path := directory.child "pose_trace.parquet"

def runLog (directory : Path) : Path := directory.child "run_log.parquet"

def programText (directory : Path) : Path := directory.child "program.txt"

def summary (directory : Path) : Path := directory.child "summary.json"

def traceImage (directory : Path) : Path := directory.child "trace.png"

/-- Whether a text names a run: letters, digits, underscores and hyphens; a line feed may end it. -/
def isRunId (s : String) : Bool :=
  let ok (c : Char) : Bool := c.isAlphanum || c = '_' || c = '-'
  match s.toList.reverse with
  | [] => false
  | '\n' :: cs => !cs.isEmpty && cs.all ok
  | cs => cs.all ok

/-- The directory of a run. -/
def runDirectory (t : Terrain) (directory : List String) (base : Path) (runId : String) :
    Except Fault (List String) :=
  if isRunId runId then resolveWithin t directory base (parse runId)
  else .error (.value (.runId runId))

end Path

end Courier
