import Courier.Json.Key

namespace Courier.Json

inductive Value
  | null
  | bool (b : Bool)
  | number (n : Number)
  | text (s : String)
  | list (items : List Value)
  | object (members : List (Key × Value))

/-- The members of an object in their order. -/
abbrev Members := List (Key × Value)

namespace Value

instance : Inhabited Value := ⟨.null⟩

def int (i : Int) : Value := .number (.int i)

def float (x : Binary64) : Value := .number (.float x)

end Value

namespace Value

def member? (v : Value) (key : Key) : Option Value :=
  match v with
  | .object ms => lookup ms key
  | _ => none

/-- Null, false, zeros and empty texts, lists and objects count as absent. -/
def isFilled : Value → Bool
  | .null => false
  | .bool b => b
  | .number n => !Number.eq n (.int 0)
  | .text s => !s.isEmpty
  | .list vs => !vs.isEmpty
  | .object ms => !ms.isEmpty

def ofKey : Key → Value
  | .null => .null
  | .bool b => .bool b
  | .number n => .number n
  | .text s => .text s

def key? : Value → Option Key
  | .null => some .null
  | .bool b => some (.bool b)
  | .number n => some (.number n)
  | .text s => some (.text s)
  | _ => none

/-- The values one by one that a value consists of: the items of a list, the characters of a text,
the keys of an object. -/
def parts? : Value → Option (List Value)
  | .list vs => some vs
  | .text s => some (s.toList.map (fun c => .text (String.singleton c)))
  | .object ms => some (ms.map (fun m => .ofKey m.1))
  | _ => none

def number? : Value → Option Number
  | .number n => some n
  | .bool b => some (Number.ofBool b)
  | _ => none

mutual
def literal : Value → String
  | .null => "None"
  | .bool b => if b then "True" else "False"
  | .number n => n.text
  | .text s => Text.quoted s
  | .list vs => "[" ++ ", ".intercalate (literals vs) ++ "]"
  | .object ms => "\x7b" ++ ", ".intercalate (memberLiterals ms) ++ "\x7d"

def literals : List Value → List String
  | [] => []
  | v :: vs => literal v :: literals vs

def memberLiterals : List (Key × Value) → List String
  | [] => []
  | (k, v) :: ms => (k.literal ++ ": " ++ literal v) :: memberLiterals ms
end

mutual
/-- Whether a value can be written: all numbers in it can. -/
def isWritable : Value → Bool
  | .number n => n.isWritable
  | .list vs => areWritable vs
  | .object ms => haveWritable ms
  | _ => true

def areWritable : List Value → Bool
  | [] => true
  | v :: vs => isWritable v && areWritable vs

def haveWritable : List (Key × Value) → Bool
  | [] => true
  | (k, v) :: ms => k.isWritable && isWritable v && haveWritable ms
end

/-- A value as plain text: a text is itself. -/
def plain : Value → String
  | .text s => s
  | v => literal v

@[simp] theorem plain_text (s : String) : (text s).plain = s := rfl

mutual
/-- Equality of values: numbers and truth values by value, objects in any order. `nanEqual` tells
whether NaN equals itself. -/
def equal (nanEqual : Bool) : Value → Value → Bool
  | .null, .null => true
  | .text s, .text t => s = t
  | .list vs, .list ws => equalLists nanEqual vs ws
  | .object ms, .object ns => ms.length = ns.length && equalMembers nanEqual ms ns
  | v, w =>
    match number? v, number? w with
    | some x, some y => Number.eq x y || (nanEqual && x = .float .nan && y = .float .nan)
    | _, _ => false

def equalLists (nanEqual : Bool) : List Value → List Value → Bool
  | [], [] => true
  | v :: vs, w :: ws => equal nanEqual v w && equalLists nanEqual vs ws
  | _, _ => false

def equalMembers (nanEqual : Bool) : List (Key × Value) → List (Key × Value) → Bool
  | [], _ => true
  | (k, v) :: ms, ns =>
    ns.any (fun n => k.same nanEqual n.1 && equal nanEqual v n.2) && equalMembers nanEqual ms ns
end

end Value

end Courier.Json
