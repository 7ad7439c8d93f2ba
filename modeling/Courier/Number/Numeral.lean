import Courier.Number.Basic
import Courier.Text.Blank
import Courier.Text.Digit

namespace Courier.Number

open Text

def maxDigits : Nat := 4300

def text : Number → String
  | .int i => toString i
  | .float x => x.text

/-- Whether a number can be written: an integer has at most so many digits. -/
def isWritable : Number → Bool
  | .int i => (Nat.toDigits 10 i.natAbs).length ≤ maxDigits
  | .float _ => true

/-- A leading sign and the rest. -/
def takeSign : List Char → Bool × List Char
  | '-' :: cs => (true, cs)
  | '+' :: cs => (false, cs)
  | cs => (false, cs)

/-- The longest run of digits, single underscores between them, and the rest. The run fails on an
underscore that no digit follows or precedes. -/
def takeDigits (afterDigit : Bool) (read : List Nat) : List Char → Option (List Nat × List Char)
  | [] => some (read.reverse, [])
  | c :: cs =>
    match digitValue? c with
    | some d => takeDigits true (d :: read) cs
    | none =>
      if c = '_' then
        match cs with
        | [] => none
        | c' :: _ =>
          if afterDigit && (digitValue? c').isSome then takeDigits false read cs else none
      else some (read.reverse, c :: cs)

def readInt (s : String) : Except NumberFault Int :=
  let (negative, cs) := takeSign (trim isNumeralBlank s.toList)
  match takeDigits false [] cs with
  | some (ds, rest) =>
    if ds.isEmpty then .error (.notIntegerText s)
    else if maxDigits < ds.length then .error (.tooManyDigits ds.length)
    else if rest.isEmpty then
      let n : Int := ofDigits ds
      .ok (if negative then -n else n)
    else .error (.notIntegerText s)
  | none => .error (.notIntegerText s)

/-- The exponent of a numeral, after its mark. -/
def takeExponent (cs : List Char) : Option (Int × List Char) :=
  let (negative, cs) := takeSign cs
  match takeDigits false [] cs with
  | some (ds, rest) =>
    if ds.isEmpty then none
    else
      let n : Int := ofDigits ds
      some (if negative then -n else n, rest)
  | none => none

/-- The number that a decimal, `inf`, `infinity` or `nan` denotes, after its sign. -/
def readDecimal? (negative : Bool) (cs : List Char) : Option Binary64 :=
  match String.ofList (cs.map Char.toLower) with
  | "inf" => some (.infinite negative)
  | "infinity" => some (.infinite negative)
  | "nan" => some .nan
  | _ => do
    let (whole, rest) ← takeDigits false [] cs
    let (fraction, rest) ← match rest with
      | '.' :: rest => takeDigits false [] rest
      | rest => some ([], rest)
    if whole.isEmpty && fraction.isEmpty then none
    let (exponent, rest) ← match rest with
      | 'e' :: rest => takeExponent rest
      | 'E' :: rest => takeExponent rest
      | rest => some (0, rest)
    if rest.isEmpty then
      some (Binary64.ofDecimal negative (ofDigits (whole ++ fraction)) (exponent - fraction.length))
    else none

def readFloat (s : String) : Except NumberFault Binary64 :=
  let (negative, cs) := takeSign (trim isNumeralBlank s.toList)
  match readDecimal? negative cs with
  | some x => .ok x
  | none => .error (.notNumberText s)

end Courier.Number
