import Courier.Proofs.Queue.Spell

namespace Courier

def Event.frame? : Event → Option Frame
  | .frame _ f => some f
  | _ => none

namespace Queue

/-- The frames in the trace, in order. -/
def shots (q : Queue) : List Frame := q.trace.toList.filterMap Event.frame?

section Quiet

variable {q : Queue}

theorem shots_record (q : Queue) (e : Event) :
    (q.record e).shots = q.shots ++ e.frame?.toList := by
  simp only [shots, record, Array.toList_push, List.filterMap_append]
  cases e <;> rfl

theorem shots_log (q : Queue) (level : LogLevel) (text : String) :
    (q.log level text).shots = q.shots :=
  (shots_record q _).trans (List.append_nil _)

theorem shots_announce (ho : q.orders = []) (answer : Call → Queue → Queue) :
    (q.announce answer).shots = q.shots := by
  rw [announce_quiet ho, shots_record]
  exact List.append_nil _

theorem shots_become (ho : q.orders = []) (answer : Call → Queue → Queue) (status : Status) :
    (q.become answer status).shots = q.shots := by
  unfold become
  dsimp only
  split
  · exact shots_announce (q := { q with status, settled := status ≠ .running }) ho answer
  · generalize "Queue " ++ _ ++ _ ++ _ = text
    exact (shots_announce (q := { q.log .info text with status, settled := status ≠ .running })
      ho answer).trans (shots_log q .info text)

theorem shots_fail (ho : q.orders = []) (f : Fault) : (q.fail f).shots = q.shots := by
  unfold fail
  dsimp only
  generalize "Instruction " ++ _ ++ _ ++ _ = text
  exact (shots_become (q := { q.log .info text with fault := some f }) ho call .error).trans
    (shots_log q .info text)

theorem shots_finish (ho : q.orders = []) : q.finish.shots = q.shots := by
  unfold finish
  cases q.interpreter.checkBalanced with
  | error f => exact shots_fail ho f
  | ok u => exact shots_become ho call .idle

theorem shots_stumble (ho : q.orders = []) (line : Line) {f : Fault}
    (hf : ∀ reason, f ≠ .cancelled reason) : (q.stumble line f).1.shots = q.shots := by
  unfold stumble
  split
  · next reason => exact absurd rfl (hf reason)
  · dsimp only
    split
    · exact shots_fail ho f
    · exact (shots_fail (q := q.log .error _) ho f).trans (shots_log q .error _)

theorem shots_complete (ho : q.orders = []) (r : StepResult) :
    (q.complete r).shots = q.shots := by
  rw [complete_quiet ho]
  simp [shots, Event.frame?]

theorem shots_dispatch (ho : q.orders = []) (line : Line) (pending : List Line) :
    (q.dispatch line pending).shots = q.shots :=
  shots_announce (q := { q with pending, token := some .fresh, current := some line }) ho call

theorem shots_heed (q : Queue) (o : Opening) : (q.heed o).shots = q.shots := by
  unfold heed
  cases o.evaluated <;> cases o.skipped
  · rfl
  · exact shots_log q .debug _
  · exact (shots_record q _).trans (List.append_nil _)
  · exact (shots_log _ .debug _).trans ((shots_record q _).trans (List.append_nil _))

theorem shots_run (ho : q.orders = []) (lines : List Line) :
    (q.call (.run lines)).shots = q.shots := by
  let p : Queue := { q.cancelInFlight runReason with
    pending := lines, current := none, fault := none, interpreter := q.interpreter.reset }
  rw [call_quiet ho]
  change ((p.become (fun _ r => r) .running).kick).shots = _
  have hk (r : Queue) : r.kick.shots = r.shots := by
    unfold kick
    split <;> rfl
  rw [hk]
  exact shots_become (q := p) ho (fun _ r => r) .running

theorem shots_apply (ho : q.orders = []) (e : Effect) :
    (q.apply e).shots = q.shots ++ Effect.frames [e] := by
  cases e with
  | publish f =>
    unfold apply
    dsimp only [Engine.frameOf?]
    rw [react_quiet (by exact ho), shots_record]
    rfl
  | commit s =>
    unfold apply
    dsimp only [Engine.frameOf?]
    rw [react_quiet (by exact ho), shots_record]
    rfl
  | complete => exact (List.append_nil _).symm
  | remark r => exact (shots_log _ _ _).trans (List.append_nil _).symm

/-- The worker shows the frames of what it performs. -/
theorem shots_applyAll (ho : q.orders = []) (es : List Effect) :
    (q.applyAll es).shots = q.shots ++ Effect.frames es := by
  induction es generalizing q with
  | nil => exact (List.append_nil _).symm
  | cons e es ih =>
    obtain ⟨n, a, _, he⟩ := apply_quiet ho e
    have hs : (q.apply e).orders = [] := by rw [he]; exact ho
    have hcons : Effect.frames (e :: es) = Effect.frames [e] ++ Effect.frames es :=
      Effect.frames_append [e] es
    change ((q.apply e).applyAll es).shots = _
    rw [ih hs, shots_apply ho, hcons, List.append_assoc]

theorem shots_perform (ho : q.orders = []) (sp : Spell) :
    (q.perform sp).shots = q.shots ++ Effect.frames sp.effects :=
  shots_applyAll (q := { q with interpreter := { q.interpreter with branches := sp.branches } })
    ho sp.effects

end Quiet

end Queue

end Courier
