import Courier.Json.Members

namespace Courier

structure MotionSettings where
  /-- Frames per unit move or quarter turn. -/
  frames : Number
  /-- Seconds per unit move, quarter turn or squash. -/
  duration : Number
  /-- The least pause in seconds after a unit move. -/
  minSettle : Number
  /-- The height of the agent at the bottom of a squash. -/
  squashScale : Number
  deriving DecidableEq

def numberField (fields : Json.Members) (key : String) (default : Number) : Except Fault Number :=
  match Json.lookup fields (.text key) with
  | none => .ok default
  | some v => v.toNumber

/-- All fields have one of the given names. -/
def checkFieldNames (fields : Json.Members) (names : List String) : Except Fault Unit :=
  if fields.all (fun f => names.any (fun name => f.1 == .text name)) then .ok ()
  else .error (.shape .kind)

def require (ok : Bool) (cause : ValueFault) : Except Fault Unit :=
  if ok then .ok () else .error (.value cause)

namespace MotionSettings

def standard : MotionSettings where
  frames := .int 20
  duration := .float (Binary64.ofRatio 3 10)
  minSettle := .float (Binary64.ofRatio 1 20)
  squashScale := .float (Binary64.ofRatio 11 20)

def instant : MotionSettings where
  frames := .int 1
  duration := .float (Binary64.zero false)
  minSettle := .float (Binary64.zero false)
  squashScale := standard.squashScale

/-- Settings from named numbers; each is checked before the next one is looked at. -/
def ofFields (fields : Json.Members) : Except Fault MotionSettings := do
  checkFieldNames fields ["frames", "duration", "min_settle", "squash_min_scale"]
  let frames ← numberField fields "frames" standard.frames
  require (!frames.lt (.int 1)) .frames
  let duration ← numberField fields "duration" standard.duration
  require (!duration.lt (.int 0)) .duration
  let minSettle ← numberField fields "min_settle" standard.minSettle
  require (!minSettle.lt (.int 0)) .minSettle
  let squashScale ← numberField fields "squash_min_scale" standard.squashScale
  require (Number.lt (.int 0) squashScale && squashScale.le (.int 1)) .squashScale
  return { frames, duration, minSettle, squashScale }

/-- Settings from a word, from null for the standard ones, or from named numbers. -/
def ofValue (v : Json.Value) : Except Fault MotionSettings :=
  match v with
  | .text "instant" => .ok instant
  | .null => .ok standard
  | .object fields => ofFields fields
  | _ => .error (.shape .kind)

/-- Seconds between two frames of a move or turn. -/
def frameInterval (s : MotionSettings) : Except NumberFault Number :=
  return .float (← s.duration.div s.frames)

/-- Seconds between two unit moves. -/
def settlePause (s : MotionSettings) : Except NumberFault Number :=
  return s.minSettle.max (.float (← s.duration.div (.int 3)))

/-- The frames of a squash: half of those of a move, and at least four. -/
def squashFrames (s : MotionSettings) : Number := Number.max (.int 4) s.frames.half

/-- Seconds between two frames of a squash. -/
def squashInterval (s : MotionSettings) : Except NumberFault Number :=
  return .float (← s.duration.div s.squashFrames)

end MotionSettings

end Courier
