import Courier.Fault

namespace Courier.Cli

/-- What an option takes. -/
inductive Form
  /-- Nothing; its second name, if it has one, means no. -/
  | switch
  | text
  | integer
  | float
  | choice (words : List String)
  /-- Nothing; it asks for help. -/
  | help

structure OptionSpec where
  key : String
  names : List String
  form : Form
  /-- The key of an option that excludes this one. -/
  excludes : Option String

/-- The names of an option as they appear in messages. -/
def OptionSpec.title (o : OptionSpec) : String := "/".intercalate o.names

inductive ArgumentFault
  | ambiguous (argument : String) (names : List String)
  | valueMissing (title : String)
  | valueIgnored (title value : String)
  | notA (kind title value : String)
  | notAChoice (title value : String) (words : List String)
  | excluded (title other : String)
  | required (names : List String)
  | unrecognized (arguments : List String)

def ArgumentFault.message : ArgumentFault → String
  | ambiguous argument names =>
    "ambiguous option: " ++ argument ++ " could match " ++ ", ".intercalate names
  | valueMissing title => "argument " ++ title ++ ": expected one argument"
  | valueIgnored title value =>
    "argument " ++ title ++ ": ignored explicit argument " ++ Text.quoted value
  | notA kind title value =>
    "argument " ++ title ++ ": invalid " ++ kind ++ " value: " ++ Text.quoted value
  | notAChoice title value words =>
    "argument " ++ title ++ ": invalid choice: " ++ Text.quoted value ++ " (choose from "
      ++ ", ".intercalate (words.map Text.quoted) ++ ")"
  | excluded title other => "argument " ++ title ++ ": not allowed with argument " ++ other
  | required names => "the following arguments are required: " ++ ", ".intercalate names
  | unrecognized arguments => "unrecognized arguments: " ++ " ".intercalate arguments

inductive ArgumentStop
  | help
  | fault (f : ArgumentFault)

/-- The text that an argument holds beside the name of an option. -/
inductive Added
  | nothing
  | equals (s : String)
  | joined (s : String)

/-- What an argument is by its form. -/
inductive Piece
  | plain
  /-- The two dashes after which all arguments are plain. -/
  | dashes
  /-- An option by one of its names. -/
  | named (o : OptionSpec) (name : String) (added : Added)
  /-- It looks like an option and is none. -/
  | unknown

/-- The part before the first equals sign, and the part after it. -/
def splitEquals (s : String) : String × Added :=
  let cs := s.toList
  let before := cs.takeWhile (· ≠ '=')
  if before.length < cs.length then
    (String.ofList before, .equals (String.ofList (cs.drop (before.length+1))))
  else (s, .nothing)

/-- All names of options, each with its option. -/
def namesOf (os : List OptionSpec) : List (OptionSpec × String) :=
  os.flatMap (fun o => o.names.map (fun n => (o, n)))

/-- The options that an argument may stand for: by a start of a long name, or by a short name with
its value attached. -/
def candidates (os : List OptionSpec) (s : String) : List (OptionSpec × String × Added) :=
  if s.startsWith "--" then
    let (start, added) := splitEquals s
    ((namesOf os).filter (fun p => p.2.startsWith start)).map (fun p => (p.1, p.2, added))
  else
    (namesOf os).filterMap (fun p =>
      if p.2 = String.ofList (s.toList.take 2) then
        some (p.1, p.2, .joined (String.ofList (s.toList.drop 2)))
      else if p.2.startsWith s then some (p.1, p.2, .nothing)
      else none)

/-- Whether an argument is a negative decimal, a line feed at its end apart. -/
def isNegativeNumber (s : String) : Bool :=
  let isDigit (c : Char) : Bool := (Text.digitValue? c).isSome
  let isEnd (cs : List Char) : Bool := cs = [] || cs = ['\n']
  let isDigits (cs : List Char) : Bool := cs.any isDigit && isEnd (cs.dropWhile isDigit)
  match s.toList with
  | '-' :: cs =>
    isDigits cs ||
      (match cs.dropWhile isDigit with
        | '.' :: ds => (ds.head?.map isDigit).getD false && isDigits ds
        | _ => false)
  | _ => false

/-- What an argument before the two dashes is. -/
def pieceOf (os : List OptionSpec) (s : String) : Except ArgumentFault Piece :=
  if !s.startsWith "-" then .ok .plain
  else
    match (namesOf os).find? (·.2 = s) with
    | some (o, name) => .ok (.named o name .nothing)
    | none =>
      if s = "-" then .ok .plain
      else
        let (start, added) := splitEquals s
        match (namesOf os).find? (·.2 = start) with
        | some (o, name) => .ok (.named o name added)
        | none =>
          match candidates os s with
          | [(o, name, added)] => .ok (.named o name added)
          | [] =>
            if isNegativeNumber s || s.toList.contains ' ' then .ok .plain else .ok .unknown
          | ms => .error (.ambiguous s (ms.map (fun m => m.2.1)))

def pieces (os : List OptionSpec) : List String → Except ArgumentFault (List (String × Piece))
  | [] => .ok []
  | "--" :: ss => .ok (("--", .dashes) :: ss.map (·, .plain))
  | s :: ss => do
    let p ← pieceOf os s
    return (s, p) :: (← pieces os ss)

def readValue (o : OptionSpec) (s : String) : Except ArgumentFault Json.Value :=
  match o.form with
  | .integer =>
    match Number.readInt s with
    | .ok i => .ok (.int i)
    | .error _ => .error (.notA "int" o.title s)
  | .float =>
    match Number.readFloat s with
    | .ok x => .ok (.float x)
    | .error _ => .error (.notA "float" o.title s)
  | .choice words =>
    if words.contains s then .ok (.text s) else .error (.notAChoice o.title s words)
  | _ => .ok (.text s)

structure Arguments where
  values : List (String × Json.Value)
  extras : List String

namespace Arguments

def start : Arguments := ⟨[], []⟩

def value (a : Arguments) (key : String) : Json.Value := (Json.lookup a.values key).getD .null

/-- Keeps the value of an option unless it is excluded by an earlier one. -/
def set (a : Arguments) (os : List OptionSpec) (o : OptionSpec) (v : Json.Value) :
    Except ArgumentFault Arguments :=
  match o.excludes with
  | some other =>
    if (Json.lookup a.values other).isSome then
      .error (.excluded o.title (((os.find? (·.key = other)).map OptionSpec.title).getD other))
    else .ok { a with values := Json.insert a.values o.key v }
  | none => .ok { a with values := Json.insert a.values o.key v }

/-- Letters joined to a short option without a value are short options too; the rest from one that
is none on is refused. -/
def joined (o : OptionSpec) (name : String) : List Char → ArgumentStop
  | [] => .help
  | c :: cs =>
    if name.toList = ['-', c] then joined o name cs
    else .fault (.valueIgnored o.title (String.ofList (c :: cs)))

def refuseAdded (o : OptionSpec) (name added : String) : ArgumentStop :=
  if name.startsWith "--" || added.isEmpty then .fault (.valueIgnored o.title added)
  else joined o name added.toList

def setSwitch (a : Arguments) (os : List OptionSpec) (o : OptionSpec) (name : String)
    (added : Added) : Except ArgumentStop Arguments :=
  match added with
  | .nothing =>
    match o.form with
    | .help => .error .help
    | _ => (a.set os o (.bool (!name.startsWith "--no-"))).mapError .fault
  | .equals s => .error (refuseAdded o name s)
  | .joined s => .error (refuseAdded o name s)

def setValue (a : Arguments) (os : List OptionSpec) (o : OptionSpec) (s : String) :
    Except ArgumentStop Arguments :=
  (do a.set os o (← readValue o s) : Except ArgumentFault Arguments).mapError .fault

/-- An option with its value in the same argument. Two dashes are no value, so they leave the option
with an empty list of values. -/
def setAdded (a : Arguments) (os : List OptionSpec) (o : OptionSpec) (s : String) :
    Except ArgumentStop Arguments :=
  if s = "--" then (a.set os o (.list [])).mapError .fault else a.setValue os o s

end Arguments

def OptionSpec.takesValue (o : OptionSpec) : Bool :=
  match o.form with
  | .switch => false
  | .help => false
  | _ => true

/-- Reads an option; `rest` holds the arguments after it, and what it does not use of them is left.
-/
def Arguments.readOption (a : Arguments) (os : List OptionSpec) (o : OptionSpec) (name : String)
    (added : Added) (rest : List (String × Piece)) :
    Except ArgumentStop (Arguments × { ps : List (String × Piece) // ps.length ≤ rest.length }) :=
  if o.takesValue then
    match added, rest with
    | .equals s, ps => do return (← a.setAdded os o s, ⟨ps, Nat.le_refl _⟩)
    | .joined s, ps => do return (← a.setAdded os o s, ⟨ps, Nat.le_refl _⟩)
    | .nothing, (s, .plain) :: ps => do return (← a.setValue os o s, ⟨ps, Nat.le_succ _⟩)
    | .nothing, _ => .error (.fault (.valueMissing o.title))
  else do return (← a.setSwitch os o name added, ⟨rest, Nat.le_refl _⟩)

def readOptions (os : List OptionSpec) (a : Arguments) :
    List (String × Piece) → Except ArgumentStop Arguments
  | [] => .ok a
  | (_, .named o name added) :: ps => do
    let (a, ⟨rest, _⟩) ← a.readOption os o name added ps
    readOptions os a rest
  | (s, _) :: ps => readOptions os { a with extras := a.extras ++ [s] } ps
termination_by ps => ps.length

/-- The options of a command and which of them it needs. -/
structure Command where
  name : String
  options : List OptionSpec
  required : List String

def Command.read (c : Command) (ss : List String) : Except ArgumentStop Arguments := do
  let ps ← (pieces c.options ss).mapError .fault
  let a ← readOptions c.options .start ps
  let missing := c.options.filter (fun o =>
    c.required.contains o.key && (Json.lookup a.values o.key).isNone)
  if missing.isEmpty then return a
  else .error (.fault (.required (missing.map OptionSpec.title)))

/-- Reads general options up to the command; the arguments from there on are the command's. -/
def findCommand (os : List OptionSpec) (a : Arguments) :
    List (String × Piece) → Except ArgumentStop (Arguments × List String)
  | [] => .ok (a, [])
  | (s, .plain) :: ps => .ok (a, s :: ps.map (·.1))
  | (s, .dashes) :: ps =>
    if ps.isEmpty then .ok ({ a with extras := a.extras ++ [s] }, [])
    else .ok (a, s :: ps.map (·.1))
  | (s, .unknown) :: ps => findCommand os { a with extras := a.extras ++ [s] } ps
  | (_, .named o name added) :: ps => do
    let (a, ⟨rest, _⟩) ← a.readOption os o name added ps
    findCommand os a rest
termination_by ps => ps.length

end Courier.Cli
