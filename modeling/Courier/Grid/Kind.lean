import Courier.Fault

namespace Courier

/-- A cell by column and row; row zero is the bottom one. -/
abbrev Cell := Int × Int

inductive Kind
  | empty | wall | pickup | dropoff
  deriving DecidableEq

namespace Kind

instance : Inhabited Kind := ⟨empty⟩

/-- All kinds in the order of their codes. -/
def all : List Kind := [empty, wall, pickup, dropoff]

def name : Kind → String
  | empty => "empty"
  | wall => "wall"
  | pickup => "pickup"
  | dropoff => "dropoff"

def code : Kind → Nat
  | empty => 0
  | wall => 1
  | pickup => 2
  | dropoff => 3

def ofName? (s : String) : Option Kind := all.find? (·.name = s)

def ofCode? (n : Int) : Option Kind := all.find? (fun k => (k.code : Int) = n)

def ofName (s : String) : Except Fault Kind :=
  match ofName? s with
  | some k => .ok k
  | none => .error (.cellKind s)

def ofCode (n : Int) : Except Fault Kind :=
  match ofCode? n with
  | some k => .ok k
  | none => .error .cellCode

def ofNameValue (v : Json.Value) : Except Fault Kind :=
  match v with
  | .text s => ofName s
  | v => .error (.cellKind v.plain)

/-- The kind whose code a value equals. -/
def ofCodeValue (v : Json.Value) : Except Fault Kind :=
  match v.key?, v.number?.bind Number.toInt? with
  | none, _ => .error (.shape .kind)
  | some _, some n => ofCode n
  | some _, none => .error .cellCode

/-- The character of a kind in a picture. -/
def ofPicture? (c : Char) : Option Kind :=
  match c with
  | '.' => some empty
  | '#' => some wall
  | 'P' => some pickup
  | 'D' => some dropoff
  | _ => none

end Kind

end Courier
