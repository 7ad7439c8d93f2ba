import Courier.Fault

namespace Courier.Json.Value

/-- The values one by one that a value must consist of. -/
def parts (v : Value) : Except Fault (List Value) :=
  match v.parts? with
  | some vs => .ok vs
  | none => .error (.shape .kind)

/-- A value as plain text, if it can be written. -/
def toPlain (v : Value) : Except Fault String :=
  if v.isWritable then .ok v.plain else .error (.number .tooLongToWrite)

def toNumber (v : Value) : Except Fault Number :=
  match v.number? with
  | some n => .ok n
  | none => .error (.shape .kind)

/-- The members that a list of pairs gives, counted from `index`; `nanEqual` tells whether NaN is
the same key as itself, as it is within one text. -/
def pairs (nanEqual : Bool) (index : Nat) (read : Members) : List Value → Except Fault Members
  | [] => .ok read
  | v :: vs =>
    match v.parts? with
    | none => .error (.shape .kind)
    | some [k, w] =>
      match k.key? with
      | none => .error (.shape .kind)
      | some key => pairs nanEqual (index+1) (insertBy (Key.same nanEqual) read key w) vs
    | some ws => .error (.value (.notPair index ws.length))

def members (nanEqual : Bool) (v : Value) : Except Fault Members :=
  match v with
  | .object ms => .ok ms
  | v => do pairs nanEqual 0 [] (← v.parts)

/-- The members of a value; an empty or absent one has none. -/
def toMembers (nanEqual : Bool) (v : Value) : Except Fault Members :=
  if v.isFilled then v.members nanEqual else .ok []

end Courier.Json.Value
