import Courier.Instruction.Opcode
import Courier.Json.Reader

namespace Courier

inductive CompileFault
  /-- A loop count that is no integer, as it appears in messages. -/
  | countNotInteger (block field literal : String)
  | countNegative (block field : String) (count : Int)
  | loopTooLong (lines : Nat) (limit : Json.Value)
  | programTooLong (lines : Nat) (limit : Json.Value)

inductive FormatFault
  | blockEntry (entry : Json.Value)
  | programPayload
  | levelPayload
  /-- A declared size that differs from the rows. -/
  | declaredSize (key : String) (declared : Json.Value) (actual : Nat)
  | gridShape (dimensions : List Nat)
  | cellCodes
  | gridDimensions
  | cellOutside (i j width height : Json.Value)
  | noRows
  | rowWidth (row cells expected : Nat)
  | cellType (type : Json.Value) (i j : Nat)
  | noPicture
  | pictureWidth (row width expected : Nat)
  | pictureCell (c : Char)
  | notJson (what path : String) (fault : Json.SyntaxFault)

/-- Why one instruction fails. The text is the stripped line. -/
inductive InstructionFault
  | unknown (text : String)
  | unknownCondition (condition text : String)
  | countNotPositive (opcode : Opcode) (count : Int) (text : String)
  | unopened (text : String)
  /-- The program ended inside `depth` branches. -/
  | unclosed (depth : Nat)

inductive ValueFault
  | frames
  | duration
  | minSettle
  | squashScale
  | waitUnit
  | timeScale
  | twoSources
  | noSource
  | noLevel
  | instructionLimit
  | flushThreshold
  /-- A level that is not built in, as it appears in messages. -/
  | unknownLevel (literal : String)
  | startCell (i j : Int)
  | runId (text : String)
  | pathEscapes (path : String)
  | notBoolean (key : String)
  | notInteger (key : String) (literal : Option String)
  | notFloat (key : String)
  | notText (key : String)
  /-- An entry of a list of pairs that is no pair. -/
  | notPair (index length : Nat)
  deriving DecidableEq

inductive ShapeFault
  /-- A value of another kind, or a number of arguments that does not fit. -/
  | kind
  /-- A value without members. -/
  | memberless
  | missingEntry
  /-- Nested lists that are no array: of different lengths, or too many or too large. -/
  | array
  /-- A place between or beyond the places of a table. -/
  | place
  deriving DecidableEq

inductive Fault
  | compile (cause : CompileFault)
  | format (cause : FormatFault)
  | instruction (cause : InstructionFault)
  | value (cause : ValueFault)
  | shape (cause : ShapeFault)
  | number (cause : NumberFault)
  /-- A word that matches an operation in some letter case and yet names none. -/
  | opcode (word : String)
  | cellKind (name : String)
  | cellCode
  | heading
  /-- An integer in a JSON text with too many digits. -/
  | longInteger (digits : Nat)
  | cancelled (reason : String)
  | predicate
  | noRoom
  | missingFile
  | isDirectory
  | fileExists
  | notDirectory
  | linkLoop
  | nullInPath
  | longName
  /-- Rows of which one is incomplete or holds a value that its column cannot. -/
  | unfitValue
  /-- A value of a kind that its column never takes: no text among texts, a truth value among
  integers. -/
  | unfitKind

namespace CompileFault

def message : CompileFault → String
  | countNotInteger block field literal =>
    block ++ "." ++ field ++ " must be an integer, got " ++ literal
  | countNegative block field count =>
    block ++ "." ++ field ++ " must be >= 0, got " ++ toString count
  | loopTooLong lines limit =>
    "repeat_n_times unrolls to " ++ toString lines ++ " lines (limit " ++ limit.plain ++ ")"
  | programTooLong lines limit =>
    "program compiles to " ++ toString lines ++ " lines (limit " ++ limit.plain ++ ")"

end CompileFault

def pairText (a b : String) : String := "(" ++ a ++ ", " ++ b ++ ")"

def cellText (i j : Int) : String := pairText (toString i) (toString j)

namespace FormatFault

/-- The lengths of a grid along its dimensions, as they appear in messages. -/
def shapeText (dimensions : List Nat) : String :=
  match dimensions with
  | [n] => "(" ++ toString n ++ ",)"
  | ns => "(" ++ ", ".intercalate (ns.map toString) ++ ")"

def message : FormatFault → String
  | blockEntry entry => "block entry must be an object with a 'type': " ++ entry.literal
  | programPayload => "program payload must be a block, a list of blocks, or a workspace"
  | levelPayload => "level payload must be an object with 'rows'"
  | declaredSize key declared actual =>
    "level declares " ++ key ++ "=" ++ declared.plain ++ " but rows give " ++ toString actual
  | gridShape dimensions => "grid must be a non-empty 2D array, got shape " ++ shapeText dimensions
  | cellCodes => "grid contains unknown cell codes"
  | gridDimensions => "grid dimensions must be >= 1"
  | cellOutside i j width height =>
    "cell " ++ pairText i.plain j.plain ++ " is outside a " ++ width.plain ++ "x" ++ height.plain
      ++ " grid"
  | noRows => "rows must be a non-empty list of non-empty rows"
  | rowWidth row cells expected =>
    "row " ++ toString row ++ " has " ++ toString cells ++ " cells, expected " ++ toString expected
  | cellType type i j => "unknown cell type " ++ type.literal ++ " at " ++ cellText i j
  | noPicture => "ascii level is empty"
  | pictureWidth row width expected =>
    "ascii row " ++ toString row ++ " has width " ++ toString width ++ ", expected "
      ++ toString expected
  | pictureCell c => "unknown ascii cell " ++ Text.quoted (String.singleton c)
  | notJson what path fault => what ++ " file is not valid JSON: " ++ path ++ ": " ++ fault.message

end FormatFault

namespace InstructionFault

def message : InstructionFault → String
  | unknown text => "Unknown command: " ++ Text.quoted text
  | unknownCondition condition _ => "Unknown condition: " ++ Text.quoted condition
  | countNotPositive opcode count text =>
    opcode.text ++ " needs a positive count, got " ++ toString count ++ ": " ++ Text.quoted text
  | unopened _ => "END_IF without a matching IF"
  | unclosed depth => "program ended with " ++ toString depth ++ " unclosed IF block(s)"

def text? : InstructionFault → Option String
  | unknown text => some text
  | unknownCondition _ text => some text
  | countNotPositive _ _ text => some text
  | unopened text => some text
  | unclosed _ => none

end InstructionFault

namespace ValueFault

def message : ValueFault → String
  | frames => "frames must be >= 1"
  | duration => "duration must be >= 0"
  | minSettle => "min_settle must be >= 0"
  | squashScale => "squash_min_scale must be in (0.0, 1.0]"
  | waitUnit => "wait_unit_seconds must be >= 0"
  | timeScale => "time_scale must be >= 0"
  | twoSources => "program_path and instructions_path are mutually exclusive"
  | noSource => "either program_path or instructions_path must be set"
  | noLevel => "either level or level_path must be set"
  | instructionLimit => "max_instructions must be >= 1"
  | flushThreshold => "flush_threshold must be >= 1"
  | unknownLevel literal => "unknown level " ++ literal ++ " (known: level1, sandbox)"
  | startCell i j => "start cell " ++ cellText i j ++ " is not enterable"
  | runId text => "run_id must match [A-Za-z0-9_-]+, got " ++ Text.quoted text
  | pathEscapes path => "Path escapes base_dir: " ++ path
  | notBoolean key => key ++ " must be a boolean value"
  | notInteger key none => key ++ " must be an integer value"
  | notInteger key (some literal) => key ++ " must be an integer value, got " ++ literal
  | notFloat key => key ++ " must be a float value"
  | notText key => key ++ " must be a string-coercible value"
  | notPair index length =>
    "dictionary update sequence element #" ++ toString index ++ " has length " ++ toString length
      ++ "; 2 is required"

end ValueFault

/-- The wording of the digit limit; `value` tells the digits of a text that is too long. -/
def digitLimitText (value : String) : String :=
  "Exceeds the limit (4300 digits) for integer string conversion" ++ value
    ++ "; use sys.set_int_max_str_digits() to increase the limit"

namespace NumberFault

/-- The most that a message shows of a text that is no integer. -/
def excerptLength : Nat := 200

def message : NumberFault → String
  | outOfRange => "int too large to convert to float"
  | quotientOutOfRange => "integer division result too large for a float"
  | nanToInteger => "cannot convert float NaN to integer"
  | infinityToInteger => "cannot convert float infinity to integer"
  | notInteger => "'float' object cannot be interpreted as an integer"
  | countOutOfRange => "cannot fit 'int' into an index-sized integer"
  | notIntegerText text =>
    "invalid literal for int() with base 10: " ++ Text.quotedStart excerptLength text
  | notNumberText text => "could not convert string to float: " ++ Text.quoted text
  | tooManyDigits digits => digitLimitText (": value has " ++ toString digits ++ " digits")
  | tooLongToWrite => digitLimitText ""

end NumberFault

namespace Fault

def message : Fault → String
  | compile cause => cause.message
  | format cause => cause.message
  | instruction cause => cause.message
  | value cause => cause.message
  | shape .kind => "a value of another kind is needed"
  | shape .memberless => "a value with members is needed"
  | shape .missingEntry => "an entry is missing"
  | shape .array => "the rows differ in length"
  | shape .place => "only whole numbers count places"
  | number cause => cause.message
  | opcode word => Text.quoted word ++ " is not a valid Opcode"
  | cellKind name => Text.quoted name ++ " is not a valid CellKind"
  | cellCode => "no cell kind has this code"
  | heading => "no heading has this number"
  | longInteger digits => (NumberFault.tooManyDigits digits).message
  | cancelled reason => reason
  | predicate => "predicate failed"
  | noRoom => "too many items"
  | missingFile => "no such file"
  | isDirectory => "is a directory"
  | fileExists => "file exists"
  | notDirectory => "not a directory"
  | linkLoop => "links lead back to themselves"
  | nullInPath => "embedded null byte"
  | longName => "file name too long"
  | unfitValue => "a row does not fit into its table"
  | unfitKind => "a column holds a value of another kind"

/-- A fault of the format whose message shows a value. If the value cannot be written, this is the
fault. -/
def showing (v : Json.Value) (cause : FormatFault) : Fault :=
  if v.isWritable then format cause else number .tooLongToWrite

def isInstruction : Fault → Bool
  | instruction _ => true
  | _ => false

end Fault

instance : MonadLift (Except NumberFault) (Except Fault) where
  monadLift
    | .ok a => .ok a
    | .error e => .error (.number e)

/-- A sequence succeeds only if its first part does. -/
theorem bind_eq_ok {ε α β : Type} {r : Except ε α} {f : α → Except ε β} {b : β}
    (h : (r >>= f) = .ok b) : ∃ a, r = .ok a ∧ f a = .ok b := by
  cases r with
  | error e => cases h
  | ok a => exact ⟨a, rfl, h⟩

/-- A sequence fails with one of its parts. -/
theorem bind_eq_error {ε α β : Type} {r : Except ε α} {f : α → Except ε β} {e : ε}
    (h : (r >>= f) = .error e) : r = .error e ∨ ∃ a, r = .ok a ∧ f a = .error e := by
  cases r with
  | error d => cases h; exact .inl rfl
  | ok a => exact .inr ⟨a, rfl, h⟩

theorem ok_bind {ε α β : Type} (a : α) (f : α → Except ε β) :
    ((Except.ok a : Except ε α) >>= f) = f a := rfl

theorem lift_ok {α : Type} {r : Except NumberFault α} {a : α} (h : r = .ok a) :
    (liftM r : Except Fault α) = .ok a := by
  rw [h]
  rfl

end Courier
