import Courier.Json.Load
import Courier.Json.Members
import Courier.Program.Block

namespace Courier.Program

open Json (Key Value Members)

/-- Slots of a block while it is read. -/
structure Slots where
  statements : List (String × List Block)
  inputs : List (String × Block)

def Slots.empty : Slots := ⟨[], []⟩

/-- The slots that hold sequences in every case. -/
def isStatementSlot (slot : String) : Bool :=
  slot = "DO" || slot = "ELSE"

def hasKey (ms : Members) (key : Key) : Bool :=
  ms.any (·.1 == key)

def assemble (nanEqual : Bool) (ms : Members) (slots : Slots) : Except Fault Block := do
  let type ← ((Json.lookup ms "type").getD .null).toPlain
  let fields ← ((Json.lookup ms "fields").getD .null).toMembers nanEqual
  return .mk type fields slots.statements slots.inputs

mutual
/-- The sequence that starts at an entry; null is the empty sequence. -/
def chain (nanEqual : Bool) : Value → Except Fault (List Block)
  | .null => .ok []
  | .object ms =>
    if hasKey ms "type" then do
      let slots ← slotsOf nanEqual ms
      let b ← assemble nanEqual ms slots
      let bs ← following nanEqual ms
      return b :: bs
    else .error (.showing (.object ms) (.blockEntry (.object ms)))
  | v => .error (.showing v (.blockEntry v))

def single (nanEqual : Bool) : Value → Except Fault Block
  | .object ms =>
    if hasKey ms "type" then do
      let slots ← slotsOf nanEqual ms
      assemble nanEqual ms slots
    else .error (.showing (.object ms) (.blockEntry (.object ms)))
  | v => .error (.showing v (.blockEntry v))

/-- The sequence linked by `next` among the members of an entry. -/
def following (nanEqual : Bool) : List (Key × Value) → Except Fault (List Block)
  | [] => .ok []
  | (k, v) :: ms =>
    if k = .text "next" then
      match v with
      | .object ws => linked nanEqual ws
      | _ => .ok []
    else following nanEqual ms

/-- The sequence under `block` among the members of a link. -/
def linked (nanEqual : Bool) : List (Key × Value) → Except Fault (List Block)
  | [] => .ok []
  | (k, v) :: ms => if k = .text "block" then chain nanEqual v else linked nanEqual ms

/-- The slots under `inputs` among the members of an entry. -/
def slotsOf (nanEqual : Bool) : List (Key × Value) → Except Fault Slots
  | [] => .ok .empty
  | (k, v) :: ms =>
    if k = .text "inputs" then
      match v with
      | .object slots => slotsFrom nanEqual slots
      | v => if v.isFilled then .error (.shape .memberless) else .ok .empty
    else slotsOf nanEqual ms

/-- Each slot with a block or a sequence in it, in order. -/
def slotsFrom (nanEqual : Bool) : List (Key × Value) → Except Fault Slots
  | [] => .ok .empty
  | (slot, wrapper) :: rest => do
    let found ← match wrapper with
      | .object ws => slotContent nanEqual slot.plain ws
      | _ => .ok .empty
    let slots ← slotsFrom nanEqual rest
    return ⟨found.statements ++ slots.statements, found.inputs ++ slots.inputs⟩

/-- The content under `block` among the members of a slot: a sequence if another block follows or
the slot is a statement slot. -/
def slotContent (nanEqual : Bool) (slot : String) : List (Key × Value) → Except Fault Slots
  | [] => .ok .empty
  | (k, v) :: ms =>
    if k = .text "block" then
      match v with
      | .null => .ok .empty
      | .object inner =>
        if hasKey inner "next" || isStatementSlot slot then do
          let bs ← chain nanEqual (.object inner)
          return ⟨[(slot, bs)], []⟩
        else do
          let b ← single nanEqual (.object inner)
          return ⟨[], [(slot, b)]⟩
      | .bool _ => .error (.shape .kind)
      | .number _ => .error (.shape .kind)
      | v => .error (.showing v (.blockEntry v))
    else slotContent nanEqual slot ms
end

/-- The entries of a document: the blocks of a workspace, a list of stacks or a single block. -/
def entries? (document : Value) : Option (List Value) :=
  let inner := match document with
    | .object ms =>
      match Json.lookup ms "blocks" with
      | some (.object ws) => (Json.lookup ws "blocks").getD (.list [])
      | some v => v
      | none => document
    | v => v
  match inner with
  | .object ms => some [.object ms]
  | .list vs => some vs
  | _ => none

/-- The program of a document, its stacks one after another; `nanEqual` tells whether NaN is the
same key as itself in it. -/
def ofDocument (nanEqual : Bool) (document : Value) : Except Fault Program :=
  match entries? document with
  | some vs => return (← vs.mapM (chain nanEqual)).flatten
  | none => .error (.format .programPayload)

def load (path text : String) : Except Fault Program := do
  ofDocument true (← Json.load "program" path text)

def wrapped (head : Value) : Value := .object [("block", head)]

mutual
def entry : Block → Members
  | .mk type fields statements inputs =>
    let slots := slotEntries (inputEntries [] inputs) statements
    let fieldMembers : Members := if fields.isEmpty then [] else [("fields", .object fields)]
    let slotMembers : Members := if slots.isEmpty then [] else [("inputs", .object slots)]
    ("type", .text type) :: (fieldMembers ++ slotMembers)

def inputEntries (slots : Members) : List (String × Block) → Members
  | [] => slots
  | (slot, b) :: rest =>
    inputEntries (Json.insert slots (.text slot) (wrapped (.object (entry b)))) rest

/-- A statement slot without blocks is left out. -/
def slotEntries (slots : Members) : List (String × List Block) → Members
  | [] => slots
  | (slot, bs) :: rest =>
    match chainEntry bs with
    | some head => slotEntries (Json.insert slots (.text slot) (wrapped head)) rest
    | none => slotEntries slots rest

/-- The entry of a sequence, each block linked to the next one. -/
def chainEntry : List Block → Option Value
  | [] => none
  | b :: bs =>
    match chainEntry bs with
    | some head => some (.object (entry b ++ [(.text "next", wrapped head)]))
    | none => some (.object (entry b))
end

/-- The workspace document of a program, as a single stack. -/
def toDocument (p : Program) : Value :=
  .object [("blocks", .object [("blocks", .list (chainEntry p).toList)])]

end Courier.Program
