namespace Courier

inductive Opcode
  | moveForward | moveBackward | turnLeft | turnRight | pickup | dropoff | wait | branch | endBranch
  deriving DecidableEq

namespace Opcode

def text : Opcode → String
  | moveForward => "MOVE_FORWARD"
  | moveBackward => "MOVE_BACKWARD"
  | turnLeft => "TURN_LEFT"
  | turnRight => "TURN_RIGHT"
  | pickup => "PICKUP"
  | dropoff => "DROPOFF"
  | wait => "WAIT"
  | branch => "IF"
  | endBranch => "END_IF"

/-- Operations that open or close a branch. -/
def isControl : Opcode → Bool
  | branch => true
  | endBranch => true
  | _ => false

end Opcode

end Courier
