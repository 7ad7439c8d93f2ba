import Courier.Number.Numeral
import Courier.Text.Quoted

namespace Courier.Json

inductive Key
  | null
  | bool (b : Bool)
  | number (n : Number)
  | text (s : String)
  deriving DecidableEq

namespace Key

instance : Inhabited Key := ⟨.null⟩

instance : Coe String Key := ⟨.text⟩

/-- The number that a key counts as. -/
def number? : Key → Option Number
  | .number n => some n
  | .bool b => some (Number.ofBool b)
  | _ => none

/-- Whether two keys are the same; `nanEqual` tells whether NaN is the same key as itself. -/
def same (nanEqual : Bool) : Key → Key → Bool
  | .null, .null => true
  | .text s, .text t => s = t
  | k, l =>
    match number? k, number? l with
    | some x, some y => Number.eq x y || (nanEqual && x = .float .nan && y = .float .nan)
    | _, _ => false

instance : BEq Key := ⟨same false⟩

def literal : Key → String
  | .null => "None"
  | .bool b => if b then "True" else "False"
  | .number n => n.text
  | .text s => Text.quoted s

def isWritable : Key → Bool
  | .number n => n.isWritable
  | _ => true

/-- A key as plain text: a text is itself. -/
def plain : Key → String
  | .text s => s
  | k => literal k

end Key

def lookup {κ α : Type} [BEq κ] (members : List (κ × α)) (key : κ) : Option α :=
  (members.find? (·.1 == key)).map (·.2)

theorem mem_of_lookup {κ α : Type} [BEq κ] {members : List (κ × α)} {key : κ} {v : α}
    (h : lookup members key = some v) : ∃ m ∈ members, m.2 = v := by
  obtain ⟨m, hm, rfl⟩ := Option.map_eq_some_iff.mp h
  exact ⟨m, List.mem_of_find?_eq_some hm, rfl⟩

/-- A later value of a key takes the place of the earlier one. -/
def insertBy {κ α : Type} (same : κ → κ → Bool) (members : List (κ × α)) (key : κ) (v : α) :
    List (κ × α) :=
  if members.any (same ·.1 key) then members.map (fun m => if same m.1 key then (m.1, v) else m)
  else members ++ [(key, v)]

def insert {κ α : Type} [BEq κ] (members : List (κ × α)) (key : κ) (v : α) : List (κ × α) :=
  insertBy (· == ·) members key v

end Courier.Json
