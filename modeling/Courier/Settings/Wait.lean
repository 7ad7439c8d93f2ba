import Courier.Settings.Motion

namespace Courier

structure WaitSettings where
  /-- Seconds per unit. -/
  unitSeconds : Number
  /-- Stretches all waits; zero makes them instantaneous. -/
  timeScale : Number
  deriving DecidableEq

namespace WaitSettings

def standard : WaitSettings where
  unitSeconds := .float (Binary64.ofNat 1)
  timeScale := .float (Binary64.ofNat 1)

def instant : WaitSettings := { standard with timeScale := .int 0 }

def ofFields (fields : Json.Members) : Except Fault WaitSettings := do
  checkFieldNames fields ["wait_unit_seconds", "time_scale"]
  let unitSeconds ← numberField fields "wait_unit_seconds" standard.unitSeconds
  require (!unitSeconds.lt (.int 0)) .waitUnit
  let timeScale ← numberField fields "time_scale" standard.timeScale
  require (!timeScale.lt (.int 0)) .timeScale
  return { unitSeconds, timeScale }

def ofValue (v : Json.Value) : Except Fault WaitSettings :=
  match v with
  | .null => .ok standard
  | .object fields => ofFields fields
  | _ => .error (.shape .kind)

def seconds (s : WaitSettings) (units : Number) : Except NumberFault Number := do
  (← units.mul s.unitSeconds).mul s.timeScale

/-- The most items of a repeated list or text. -/
def maxItems : Nat := 1 <<< 32

/-- A list or text as often as a whole number says. -/
def repeated (n : Number) (v : Json.Value) : Except Fault Json.Value := do
  let times := (← n.count).toNat
  let most (length : Nat) : Except Fault Unit :=
    if 1 <<< 63 ≤ times then .error (.number .countOutOfRange)
    else if maxItems < length*times then .error .noRoom
    else .ok ()
  match v with
  | .list vs => do
    most vs.length
    return .list (if vs.isEmpty then [] else (List.replicate times vs).flatten)
  | .text t => do
    most t.length
    return .text (if t.isEmpty then t else String.join (List.replicate times t))
  | _ => throw (.shape .kind)

/-- What a wait of any units takes: seconds, or a list or text repeated. -/
def secondsOf (s : WaitSettings) (units : Json.Value) : Except Fault Json.Value := do
  match units.number? with
  | some n => return .number (← s.seconds n)
  | none => repeated s.timeScale (← repeated s.unitSeconds units)

end WaitSettings

end Courier
