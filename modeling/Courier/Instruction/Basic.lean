import Courier.Instruction.Opcode

namespace Courier

/-- What an instruction asks for. Counts are positive, conditions in capitals. -/
inductive Command
  | moveForward (cells : Nat)
  | moveBackward (cells : Nat)
  | turnLeft
  | turnRight
  | pickup
  | dropoff
  | wait (units : Nat)
  | branch (condition : String)
  | endBranch
  deriving DecidableEq

namespace Command

def opcode : Command → Opcode
  | moveForward _ => .moveForward
  | moveBackward _ => .moveBackward
  | turnLeft => .turnLeft
  | turnRight => .turnRight
  | pickup => .pickup
  | dropoff => .dropoff
  | wait _ => .wait
  | branch _ => .branch
  | endBranch => .endBranch

def count? : Command → Option Nat
  | moveForward n => some n
  | moveBackward n => some n
  | wait n => some n
  | _ => none

def condition? : Command → Option String
  | branch c => some c
  | _ => none

/-- The commands that take a count. -/
def counted : List (Nat → Command) := [moveForward, moveBackward, wait]

def bare : List Command := [turnLeft, turnRight, pickup, dropoff, endBranch]

/-- The line that spells a command in capitals with single blanks. -/
def line (c : Command) : String :=
  match c.count?, c.condition? with
  | some n, _ => c.opcode.text ++ " " ++ toString n
  | none, some condition => c.opcode.text ++ " " ++ condition
  | none, none => c.opcode.text

end Command

structure Instruction where
  text : String
  command : Command
  deriving DecidableEq

end Courier
