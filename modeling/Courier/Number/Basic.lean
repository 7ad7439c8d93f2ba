import Courier.Binary64.Decimal

namespace Courier

/-- Why a number cannot be computed, read or written. -/
inductive NumberFault
  | outOfRange
  | quotientOutOfRange
  | nanToInteger
  | infinityToInteger
  /-- A binary64 number where only an integer can count. -/
  | notInteger
  /-- A count beyond `2^63-1`. -/
  | countOutOfRange
  | notIntegerText (text : String)
  | notNumberText (text : String)
  | tooManyDigits (digits : Nat)
  /-- An integer with more digits than a text may have. -/
  | tooLongToWrite
  deriving DecidableEq

inductive Number
  | int (i : Int)
  | float (x : Binary64)
  deriving DecidableEq

namespace Number

instance : Inhabited Number := ⟨.int 0⟩

def ofBool (b : Bool) : Number := .int (if b then 1 else 0)

def toBinary64 : Number → Except NumberFault Binary64
  | .float x => .ok x
  | .int i =>
    let x := Binary64.ofInt i
    if x.isFinite then .ok x else .error .outOfRange

/-- One operation on exact integers, and one on binary64 numbers when an operand is one. -/
def promote (exact : Int → Int → Int) (rounded : Binary64 → Binary64 → Binary64) :
    Number → Number → Except NumberFault Number
  | .int i, .int j => .ok (.int (exact i j))
  | x, y => do return .float (rounded (← x.toBinary64) (← y.toBinary64))

theorem promote_float {f : Int → Int → Int} {g : Binary64 → Binary64 → Binary64} (x : Binary64)
    (n : Number) : promote f g (.float x) n = n.toBinary64.map (fun y => .float (g x y)) := by
  have h : promote f g (.float x) n =
      (do return .float (g (← (Number.float x).toBinary64) (← n.toBinary64))) := by
    cases n <;> rfl
  rw [h]
  generalize n.toBinary64 = r
  cases r <;> rfl

theorem float_promote {f : Int → Int → Int} {g : Binary64 → Binary64 → Binary64} (n : Number)
    (x : Binary64) : promote f g n (.float x) = n.toBinary64.map (fun y => .float (g y x)) := by
  have h : promote f g n (.float x) =
      (do return .float (g (← n.toBinary64) (← (Number.float x).toBinary64))) := by
    cases n <;> rfl
  rw [h]
  generalize n.toBinary64 = r
  cases r <;> rfl

def add : Number → Number → Except NumberFault Number := promote (· + ·) Binary64.add

def mul : Number → Number → Except NumberFault Number := promote (· * ·) Binary64.mul

/-- The quotient by a number that is not zero; of integers, the exact quotient rounded once. -/
def div : Number → Number → Except NumberFault Binary64
  | .int i, .int j =>
    let x := Binary64.nearest (decide (i < 0) != decide (j < 0)) (i.natAbs*Binary64.unit) j.natAbs
    if x.isFinite then .ok x else .error .quotientOutOfRange
  | x, y => do return Binary64.div (← x.toBinary64) (← y.toBinary64)

theorem div_float (x : Binary64) (n : Number) :
    div (.float x) n = n.toBinary64.map (fun y => x.div y) := by
  have h : div (.float x) n =
      (do return Binary64.div (← (Number.float x).toBinary64) (← n.toBinary64)) := by
    cases n <;> rfl
  rw [h]
  generalize n.toBinary64 = r
  cases r <;> rfl

/-- The exact order of two numbers that are not NaN. -/
def compare? : Number → Number → Option Ordering
  | .int i, .int j => some (compare i j)
  | .float x, .float y => Binary64.compare? x y
  | .int i, .float (.finite s m q _) => some (compare (i*Binary64.unit) (Binary64.units s m q))
  | .float (.finite s m q _), .int j => some (compare (Binary64.units s m q) (j*Binary64.unit))
  | .int _, .float (.infinite s) => some (if s then .gt else .lt)
  | .float (.infinite s), .int _ => some (if s then .lt else .gt)
  | .int _, .float .nan => none
  | .float .nan, .int _ => none

def lt (x y : Number) : Bool := compare? x y == some .lt

def le (x y : Number) : Bool := compare? x y == some .lt || compare? x y == some .eq

/-- Numeric equality: `1` equals `1.0`, and NaN differs from everything. -/
def eq (x y : Number) : Bool := compare? x y == some .eq

/-- The first of two numbers unless the second one is greater. -/
def max (x y : Number) : Number := if lt x y then y else x

def toInt? : Number → Option Int
  | .int i => some i
  | .float x => x.toInt?

def round : Number → Except NumberFault Int
  | .int i => .ok i
  | .float x =>
    match x.round? with
    | some i => .ok i
    | none => .error (if x = .nan then .nanToInteger else .infinityToInteger)

/-- The integer part, cut toward zero. -/
def truncate : Number → Except NumberFault Int
  | .int i => .ok i
  | .float x =>
    match x.truncate? with
    | some i => .ok i
    | none => .error (if x = .nan then .nanToInteger else .infinityToInteger)

/-- Half of a nonnegative number, down to a whole number. -/
def half : Number → Number
  | .int i => .int (i / 2)
  | .float (.finite s m q _) =>
    .float (Binary64.ofInt (Binary64.units s m q / (2*Binary64.unit : Nat)))
  | .float _ => .float .nan

/-- Only integers count. -/
def count : Number → Except NumberFault Int
  | .int i => .ok i
  | .float _ => .error .notInteger

end Number

end Courier
