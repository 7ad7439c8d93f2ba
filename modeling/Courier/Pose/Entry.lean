import Courier.Json.Members
import Courier.Pose.Basic

namespace Courier

open Json (Value)

/-- The parts of a pose as they were given. -/
structure PoseEntry where
  x : Value
  y : Value
  direction : Value
  cargo : Value
  scale : Value
  moving : Value

namespace PoseEntry

def ofValue (v : Value) : Except Fault PoseEntry := do
  match ← v.parts with
  | x :: y :: direction :: rest =>
    if 3 < rest.length then throw (.shape .kind)
    return {
      x, y, direction
      cargo := rest[0]?.getD (.bool false)
      scale := rest[1]?.getD (.float (Binary64.ofNat 1))
      moving := rest[2]?.getD (.bool false) }
  | _ => throw (.shape .kind)

def ofValue? (v : Value) : Except Fault (Option PoseEntry) :=
  match v with
  | .null => .ok none
  | v => return some (← ofValue v)

/-- A part as a binary64 number, which a text may denote too. -/
def toBinary64 (v : Value) : Except Fault Binary64 :=
  match v with
  | .text s => Number.readFloat s
  | v => do (← v.toNumber).toBinary64

/-- The start pose for a height and, perhaps, a direction. -/
def start (args : List Value) : Except Fault PoseEntry := do
  let (height, direction) ← match args with
    | [height] => pure (height, Value.int 1)
    | [height, direction] => pure (height, direction)
    | _ => throw (.shape .kind)
  let y ← (← (← height.toNumber).add (.int (-1))).toBinary64
  let direction ← toBinary64 direction
  ofValue (.list [.float (Binary64.zero false), .float y, .float direction])

def cell (e : PoseEntry) : Except Fault Cell :=
  return (← (← e.x.toNumber).round, ← (← e.y.toNumber).round)

def heading (e : PoseEntry) : Except Fault Heading := do
  Heading.nearest (← e.direction.toNumber)

def ahead (e : PoseEntry) : Except Fault Cell := do
  let cell ← e.cell
  let heading ← e.heading
  return Stance.ahead ⟨cell, heading, e.cargo⟩ 1

/-- The stance next to a pose: its cell moved to binary64 numbers, its heading and its cargo. The
last two parts do not count. -/
def stance (e : PoseEntry) : Except Fault Stance := do
  let cell ← e.cell
  let x ← Number.toBinary64 (.int cell.1)
  let y ← Number.toBinary64 (.int cell.2)
  let heading ← e.heading
  return ⟨(← Number.round (.float x), ← Number.round (.float y)), heading, e.cargo⟩

/-- The pose at rest on the nearest cell; the cargo stays as it is given. -/
def settled (e : PoseEntry) : Except Fault PoseEntry := do
  let p := (← e.stance).pose Binary64
  return {
    x := .float p.x, y := .float p.y, direction := .float p.direction, cargo := e.cargo
    scale := .float p.scale, moving := .bool p.moving }

end PoseEntry

end Courier
