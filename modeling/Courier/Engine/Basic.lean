import Courier.Engine.Action
import Courier.Pose.Entry

namespace Courier

structure Engine where
  world : World
  settings : MotionSettings
  committed : Stance
  shown : Frame
  /-- Who sees each frame, in order; one observer may be listed several times. -/
  observers : List Nat
  /-- How often the level was completed. -/
  completed : Nat
  /-- How often each of those who listen for completions has been told of one. -/
  listeners : List Nat := []

namespace Engine

def checkStart (w : World) (s : Stance) : Except Fault Unit :=
  require (w.canEnter s.cell) (.startCell s.cell.1 s.cell.2)

def startStance (w : World) (pose : Option PoseEntry) : Except Fault Stance := do
  let s ← match pose with
    | some p => p.stance
    | none => .ok (.start w.height)
  checkStart w s
  return s

def make (w : World) (pose : Option PoseEntry) (settings : MotionSettings) :
    Except Fault Engine := do
  let s ← startStance w pose
  return { world := w, settings, committed := s, shown := .still s, observers := [],
           completed := 0 }

def subscribe (e : Engine) (observer : Nat) : Engine :=
  { e with observers := e.observers ++ [observer] }

/-- Ends one subscription of an observer. -/
def unsubscribe (e : Engine) (observer : Nat) : Engine :=
  { e with observers := e.observers.erase observer }

/-- One more listener, told of the completions from now on. -/
def listen (e : Engine) : Engine := { e with listeners := e.listeners ++ [0] }

def apply (e : Engine) : Effect → Engine
  | .publish f => { e with shown := f }
  | .commit s => { e with committed := s, shown := .still s }
  | .complete => { e with completed := e.completed+1, listeners := e.listeners.map (· + 1) }
  | .remark _ => e

def frameOf? : Effect → Option Frame
  | .publish f => some f
  | .commit s => some (.still s)
  | _ => none

def resetStance (e : Engine) (pose : Option PoseEntry) : Except Fault Stance :=
  startStance e.world pose

def begin (e : Engine) (a : Action) : Stretch := a.begin e.settings e.world e.committed

def resume (e : Engine) (a : Activity) : Stretch := Action.resume e.settings e.world e.committed a

def poseOf (e : Engine) (f : Frame) : Pose Binary64 :=
  f.pose (e.settings.squashScale.toBinary64.toOption.getD (Binary64.ofNat 1))

end Engine

end Courier
