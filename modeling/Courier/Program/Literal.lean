import Courier.Fault
import Courier.Program.Block
import Courier.Text.Blank

namespace Courier.Program

open Json (Value)

/-- An integer as text, which has at most so many digits. -/
def integerText (i : Int) : Except Fault String :=
  if Number.maxDigits < (Nat.toDigits 10 i.natAbs).length then .error (.number .tooLongToWrite)
  else .ok (toString i)

def literal (v : Value) : Except Fault String :=
  match v with
  | .bool b => .ok (if b then "1" else "0")
  | .number n =>
    match n.toInt? with
    | some i => integerText i
    | none => .ok n.text
  | v => .ok (Text.strip v.plain)

def integer? (v : Value) : Option Int :=
  match v with
  | .number n => n.toInt?
  | .text s => (Number.readInt (Text.strip s)).toOption
  | _ => none

/-- A loop count: an integer that is not negative; an absent field is zero. -/
def loopCount (b : Block) (field : String) : Except Fault Nat :=
  let v := (Json.lookup b.fields field).getD (.int 0)
  match integer? v with
  | none => .error (.compile (.countNotInteger b.type field v.literal))
  | some i =>
    if i < 0 then do
      let _ ← integerText i
      throw (.compile (.countNegative b.type field i))
    else .ok i.toNat

end Courier.Program
