import Courier.Fault
import Courier.Text.Blank
import Courier.Text.Case

namespace Courier.Settings

open Json (Value)

/-- The words for true and for false. -/
def boolWord? (s : String) : Option Bool :=
  let word := Text.lowerAscii (Text.strip s)
  if ["1", "true", "yes", "on"].contains word then some true
  else if ["0", "false", "no", "off"].contains word then some false
  else none

def toBool (key : String) (v : Value) : Except Fault Bool :=
  match v with
  | .bool b => .ok b
  | .text s =>
    match boolWord? s with
    | some b => .ok b
    | none => .error (.value (.notBoolean key))
  | _ => .error (.value (.notBoolean key))

/-- An integer, a binary64 number that equals one, or a text of one. -/
def toInt (key : String) (v : Value) : Except Fault Int :=
  match v with
  | .number (.int i) => .ok i
  | .number (.float x) => do
    let i ← Number.truncate (.float x)
    if x.toInt? = some i then return i else .error (.value (.notInteger key (some x.text)))
  | .text s => Number.readInt s
  | _ => .error (.value (.notInteger key none))

def toFloat (key : String) (v : Value) : Except Fault Binary64 :=
  match v with
  | .number n => n.toBinary64
  | .text s => Number.readFloat s
  | _ => .error (.value (.notFloat key))

def toText? (key : String) (v : Value) : Except Fault (Option String) :=
  match v with
  | .null => .ok none
  | .text s => .ok (some s)
  | .number n => if n.isWritable then .ok (some n.text) else .error (.number .tooLongToWrite)
  | _ => .error (.value (.notText key))

/-- A given value before that of a file, before the default. -/
def choose (given : Value) (key : String) (file : Json.Members) (default : Value) : Value :=
  match given with
  | .null => (Json.lookup file (.text key)).getD default
  | v => v

end Courier.Settings
