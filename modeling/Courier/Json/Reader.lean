import Courier.Json.Value

namespace Courier.Json

inductive Cause
  | expectingValue
  | expectingKey
  | expectingColon
  | expectingComma
  | extraData
  | unterminatedText
  | controlCharacter
  | badEscape
  | badUnicodeEscape
  | byteOrderMark
  /-- An integer with more digits than an integer may have. -/
  | tooManyDigits (digits : Nat)
  deriving DecidableEq

def Cause.message : Cause → String
  | .expectingValue => "Expecting value"
  | .expectingKey => "Expecting property name enclosed in double quotes"
  | .expectingColon => "Expecting ':' delimiter"
  | .expectingComma => "Expecting ',' delimiter"
  | .extraData => "Extra data"
  | .unterminatedText => "Unterminated string starting at"
  | .controlCharacter => "Invalid control character at"
  | .badEscape => "Invalid \\escape"
  | .badUnicodeEscape => "Invalid \\uXXXX escape"
  | .byteOrderMark => "Unexpected UTF-8 BOM (decode using utf-8-sig)"
  | .tooManyDigits _ => "Integer too long"

/-- A cause and its place: line and column count from one, the offset from zero. -/
structure SyntaxFault where
  cause : Cause
  line : Nat
  column : Nat
  offset : Nat
  deriving DecidableEq

def SyntaxFault.message (f : SyntaxFault) : String :=
  f.cause.message ++ ": line " ++ toString f.line ++ " column " ++ toString f.column
    ++ " (char " ++ toString f.offset ++ ")"

/-- A cause and the rest of the text from its place on. -/
abbrev Stop := Cause × List Char

def isSpace (c : Char) : Bool := c = ' ' || c = '\t' || c = '\n' || c = '\r'

def skipSpace (cs : List Char) : List Char := cs.dropWhile isSpace

def hexValue? (c : Char) : Option Nat :=
  if c.isDigit then some (c.toNat - 48)
  else if 'a' ≤ c && c ≤ 'f' then some (c.toNat - 87)
  else if 'A' ≤ c && c ≤ 'F' then some (c.toNat - 55)
  else none

def hexQuad? : List Char → Option (Nat × List Char)
  | a :: b :: c :: d :: e :: cs => do
    let a ← hexValue? a
    let b ← hexValue? b
    let c ← hexValue? c
    let d ← hexValue? d
    some (((a*16+b)*16+c)*16+d, e :: cs)
  | _ => none

def simpleEscape? (c : Char) : Option Char :=
  match c with
  | '"' => some '"'
  | '\\' => some '\\'
  | '/' => some '/'
  | 'b' => some '\x08'
  | 'f' => some '\x0c'
  | 'n' => some '\n'
  | 'r' => some '\r'
  | 't' => some '\t'
  | _ => none

/-- The character of a `\u` escape whose digits come next: two escapes may be one surrogate pair; a
surrogate alone becomes the replacement character. `cs` starts at the `u`. -/
def unicodeEscape (cs : List Char) : Except Stop (Char × List Char) :=
  match hexQuad? (cs.drop 1) with
  | none => .error (.badUnicodeEscape, cs)
  | some (n, rest) =>
    let alone : Char := if 0xd800 ≤ n ∧ n < 0xe000 then '\ufffd' else Char.ofNat n
    if 0xd800 ≤ n ∧ n < 0xdc00 then
      match rest with
      | '\\' :: 'u' :: more =>
        if more.length ≤ 4 then .ok (alone, rest)
        else
          match hexQuad? more with
          | none => .error (.badUnicodeEscape, rest.drop 1)
          | some (k, after) =>
            if 0xdc00 ≤ k ∧ k < 0xe000 then
              .ok (Char.ofNat (0x10000 + (n - 0xd800)*0x400 + (k - 0xdc00)), after)
            else .ok (alone, rest)
      | _ => .ok (alone, rest)
    else .ok (alone, rest)

/-- The rest of a quoted text, its opening quote at the head of `start`. -/
def quotedText (start : List Char) : Nat → List Char → List Char → Except Stop (String × List Char)
  | 0, _, _ => .error (.unterminatedText, start)
  | fuel+1, read, cs =>
    match cs with
    | [] => .error (.unterminatedText, start)
    | '"' :: rest => .ok (String.ofList read.reverse, rest)
    | ['\\'] => .error (.unterminatedText, start)
    | '\\' :: 'u' :: rest => do
      let (c, rest) ← unicodeEscape ('u' :: rest)
      quotedText start fuel (c :: read) rest
    | '\\' :: e :: rest =>
      match simpleEscape? e with
      | some c => quotedText start fuel (c :: read) rest
      | none => .error (.badEscape, cs)
    | c :: rest =>
      if c.toNat < 0x20 then .error (.controlCharacter, cs)
      else quotedText start fuel (c :: read) rest

def digits (cs : List Char) : List Char × List Char :=
  (cs.takeWhile Char.isDigit, cs.dropWhile Char.isDigit)

def digitsValue (ds : List Char) : Nat :=
  Text.ofDigits (ds.map (fun c => c.toNat - 48))

/-- The fraction at the head of a text: a point and at least one digit. -/
def fraction : List Char → List Char × List Char
  | '.' :: cs => if (digits cs).1.isEmpty then ([], '.' :: cs) else digits cs
  | cs => ([], cs)

/-- The exponent at the head of a text: a mark, an optional sign and at least one digit. -/
def exponent? (cs : List Char) : Option (Int × List Char) :=
  let after : Option (List Char) := match cs with
    | 'e' :: rest => some rest
    | 'E' :: rest => some rest
    | _ => none
  match after with
  | none => none
  | some rest =>
    let (negative, rest) := Number.takeSign rest
    let (ds, rest) := digits rest
    if ds.isEmpty then none
    else
      let n : Int := digitsValue ds
      some (if negative then -n else n, rest)

/-- A number without leading zeros; a fraction or an exponent makes it binary64. -/
def number (cs : List Char) : Except Stop (Number × List Char) :=
  let (negative, unsigned) := match cs with
    | '-' :: rest => (true, rest)
    | rest => (false, rest)
  let (whole, rest) := match unsigned with
    | '0' :: rest => (['0'], rest)
    | rest => digits rest
  if whole.isEmpty then .error (.expectingValue, cs)
  else
    let (places, rest) := fraction rest
    let decimal (e : Int) : Number :=
      .float (Binary64.ofDecimal negative (digitsValue (whole ++ places)) (e - places.length))
    match exponent? rest with
    | some (e, rest) => .ok (decimal e, rest)
    | none =>
      if places.isEmpty then
        if Number.maxDigits < whole.length then .error (.tooManyDigits whole.length, cs)
        else
          let n : Int := digitsValue whole
          .ok (.int (if negative then -n else n), rest)
      else
        .ok (decimal 0, rest)

def scalar : List Char → Except Stop (Value × List Char)
  | 'n' :: 'u' :: 'l' :: 'l' :: rest => .ok (.null, rest)
  | 't' :: 'r' :: 'u' :: 'e' :: rest => .ok (.bool true, rest)
  | 'f' :: 'a' :: 'l' :: 's' :: 'e' :: rest => .ok (.bool false, rest)
  | 'N' :: 'a' :: 'N' :: rest => .ok (.float .nan, rest)
  | 'I' :: 'n' :: 'f' :: 'i' :: 'n' :: 'i' :: 't' :: 'y' :: rest =>
    .ok (.float (.infinite false), rest)
  | '-' :: 'I' :: 'n' :: 'f' :: 'i' :: 'n' :: 'i' :: 't' :: 'y' :: rest =>
    .ok (.float (.infinite true), rest)
  | cs => do
    let (n, rest) ← number cs
    return (.number n, rest)

mutual
def value : Nat → List Char → Except Stop (Value × List Char)
  | 0, cs => .error (.expectingValue, cs)
  | fuel+1, cs =>
    match cs with
    | '"' :: rest => do
      let (s, rest) ← quotedText cs (rest.length+1) [] rest
      return (.text s, rest)
    | '\x7b' :: rest =>
      match skipSpace rest with
      | '\x7d' :: rest => .ok (.object [], rest)
      | rest => members fuel [] rest
    | '[' :: rest =>
      match skipSpace rest with
      | ']' :: rest => .ok (.list [], rest)
      | rest => items fuel [] rest
    | cs => scalar cs

/-- The items of a list up to its bracket, after those in `read`. -/
def items : Nat → List Value → List Char → Except Stop (Value × List Char)
  | 0, _, cs => .error (.expectingValue, cs)
  | fuel+1, read, cs => do
    let (v, rest) ← value fuel cs
    match skipSpace rest with
    | ']' :: rest => .ok (.list (v :: read).reverse, rest)
    | ',' :: rest => items fuel (v :: read) (skipSpace rest)
    | rest => .error (.expectingComma, rest)

/-- The members of an object up to its brace, after those in `read`. -/
def members : Nat → Members → List Char → Except Stop (Value × List Char)
  | 0, _, cs => .error (.expectingKey, cs)
  | fuel+1, read, cs => do
    match cs with
    | '"' :: rest =>
      let (key, rest) ← quotedText cs (rest.length+1) [] rest
      match skipSpace rest with
      | ':' :: rest =>
        let (v, rest) ← value fuel (skipSpace rest)
        let read := insert read key v
        match skipSpace rest with
        | '\x7d' :: rest => .ok (.object read, rest)
        | ',' :: rest => members fuel read (skipSpace rest)
        | rest => .error (.expectingComma, rest)
      | rest => .error (.expectingColon, rest)
    | cs => .error (.expectingKey, cs)
end

/-- A whole text as one value. Two calls at most start at the same character, so twice its length is
deep enough. -/
def document (cs : List Char) : Except Stop Value :=
  match cs with
  | '\ufeff' :: _ => .error (.byteOrderMark, cs)
  | cs => do
    let (v, rest) ← value (2*cs.length+1) (skipSpace cs)
    match skipSpace rest with
    | [] => return v
    | rest => .error (.extraData, rest)

/-- The place in a text at which `rest` remains. -/
def SyntaxFault.locate (cs : List Char) (cause : Cause) (rest : List Char) : SyntaxFault :=
  let before := cs.take (cs.length - rest.length)
  { cause
    line := before.count '\n' + 1
    column := (before.reverse.takeWhile (· ≠ '\n')).length + 1
    offset := before.length }

def read (s : String) : Except SyntaxFault Value :=
  match document s.toList with
  | .ok v => .ok v
  | .error (cause, rest) => .error (.locate s.toList cause rest)

end Courier.Json
