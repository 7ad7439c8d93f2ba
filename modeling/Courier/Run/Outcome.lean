import Courier.Queue.Time

namespace Courier

structure Outcome where
  queue : Queue

namespace Outcome

def ofEngine (e : Engine) (wait : WaitSettings) (lines : List Line) : Outcome :=
  ⟨((Queue.make (.make wait []) e).call (.run lines)).settle.2⟩

def ofRun (lines : List Line) (w : World) (pose : Option PoseEntry) (motion : MotionSettings)
    (wait : WaitSettings) : Except Fault Outcome := do
  return ofEngine (← Engine.make w pose motion) wait lines

def succeeded (o : Outcome) : Bool := o.queue.status = .idle

def results (o : Outcome) : List StepResult := o.queue.completed.toList

def frames (o : Outcome) : List (Binary64 × Frame) :=
  o.queue.trace.toList.filterMap (fun e =>
    match e with
    | .frame t f => some (t, f)
    | _ => none)

def poses (o : Outcome) : List (Pose Binary64) := o.frames.map (fun f => o.queue.engine.poseOf f.2)

def final (o : Outcome) : Stance := o.queue.engine.committed

/-- The line that failed, null if there is none. -/
def failedLine (o : Outcome) : Line :=
  match o.queue.fault with
  | some _ => o.queue.shownCurrent
  | none => .null

def textOrNull : Option String → Json.Value
  | some s => .text s
  | none => .null

def summary (o : Outcome) : Json.Members :=
  let pose := o.final.pose Binary64
  [("status", .text o.queue.status.name),
   ("error", textOrNull (o.queue.fault.map Fault.message)),
   ("failed_instruction", o.failedLine),
   ("instructions_completed", .int o.queue.completed.size),
   ("instructions_pending", .int o.queue.pending.length),
   ("level_completed", .bool (0 < o.queue.engine.completed)),
   ("final_pose", .object
     [("x", .float pose.x), ("y", .float pose.y), ("direction", .text o.final.heading.name),
      ("carrying_cargo", o.final.cargo)])]

end Outcome

end Courier
