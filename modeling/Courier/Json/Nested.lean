import Courier.Json.Value

namespace Courier.Json.Value

/-- The most dimensions that an array can have. -/
def maxDimensions : Nat := 64

mutual
/-- The lengths of a nested list along its dimensions, if all of one depth agree. -/
def lengths? : Value → Option (List Nat)
  | .list vs => (itemLengths? vs).map (vs.length :: ·)
  | _ => some []

/-- The lengths that all items of a list share. -/
def itemLengths? : List Value → Option (List Nat)
  | [] => some []
  | [v] => lengths? v
  | v :: vs => do
    let ns ← lengths? v
    if some ns = itemLengths? vs then some ns else none
end

/-- The lengths of an array along its dimensions. -/
def dimensions? (v : Value) : Option (List Nat) :=
  v.lengths?.filter (fun ns => ns.length ≤ maxDimensions)

mutual
/-- The scalars of a nested list in their order. -/
def scalars : Value → List Value
  | .list vs => itemScalars vs
  | v => [v]

def itemScalars : List Value → List Value
  | [] => []
  | v :: vs => scalars v ++ itemScalars vs
end

def isNull : Value → Bool
  | .null => true
  | _ => false

def isText : Value → Bool
  | .text _ => true
  | _ => false

def isObject : Value → Bool
  | .object _ => true
  | _ => false

/-- An integer too large for sixty-four bits with or without sign. -/
def isHuge : Value → Bool
  | .number (.int i) => i < -0x8000000000000000 || 0x10000000000000000 ≤ i
  | _ => false

/-- Whether the scalars of an array all become texts. Null, objects and huge integers stay as they
are, and everything beside them does. -/
def becomeTexts (scalars : List Value) : Bool :=
  scalars.any isText && !scalars.any (fun v => v.isNull || v.isObject || v.isHuge)

/-- Whether a scalar counts as filled in an array. A text that was made of another scalar is never
empty, and null characters at the end of a text do not count. -/
def isFilledIn (texts : Bool) (v : Value) : Bool :=
  if texts then
    match v with
    | .text s => s.toList.any (· ≠ '\x00')
    | _ => true
  else v.isFilled

end Courier.Json.Value
