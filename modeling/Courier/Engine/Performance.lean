import Courier.Engine.Basic
import Courier.Engine.Token

namespace Courier

/-- An engine on a clock and what its last action left behind. -/
structure Performance where
  engine : Engine
  watch : Watch
  /-- The calls of observers, each with its time. -/
  sightings : List (Binary64 × Frame)
  remarks : List Remark
  completions : Nat
  /-- Cancels from inside the observer call of this number. -/
  stopAt : Option Nat

namespace Performance

def start (e : Engine) : Performance := ⟨e, .start, [], [], 0, none⟩

def sight (f : Frame) (p : Performance) : Performance :=
  let sightings := p.sightings ++ [(p.watch.now, f)]
  { p with
    sightings
    watch := if p.stopAt = some sightings.length then p.watch.cancel (.text "stop") else p.watch }

def apply (p : Performance) (e : Effect) : Performance :=
  let p := { p with engine := p.engine.apply e }
  let p := match Engine.frameOf? e with
    | some f => p.engine.observers.foldl (fun p _ => p.sight f) p
    | none => p
  match e with
  | .remark r => { p with remarks := p.remarks ++ [r] }
  | .complete => { p with completions := p.completions+1 }
  | _ => p

def applyAll (p : Performance) (es : List Effect) : Performance := es.foldl apply p

theorem engine_sight (f : Frame) (p : Performance) : (p.sight f).engine = p.engine := rfl

theorem engine_foldl_sight (f : Frame) (os : List Nat) (p : Performance) :
    (os.foldl (fun p _ => p.sight f) p).engine = p.engine := by
  induction os generalizing p with
  | nil => rfl
  | cons o os ih => exact (ih _).trans (engine_sight f p)

theorem engine_apply (p : Performance) (e : Effect) : (p.apply e).engine = p.engine.apply e := by
  cases e <;> simp [apply, Engine.frameOf?, engine_foldl_sight]

theorem settings_applyAll (p : Performance) (es : List Effect) :
    (p.applyAll es).engine.settings = p.engine.settings := by
  induction es generalizing p with
  | nil => rfl
  | cons e es ih =>
    exact (ih _).trans (by rw [engine_apply]; cases e <;> rfl)

/-- From a pause of an activity to the end of its action. -/
def follow (p : Performance) (seconds : Number) (a : Activity) :
    Except Fault Answer × Performance :=
  match p.watch.sleep seconds with
  | (.error f, watch) =>
    let p := { p with watch }
    match f with
    | .cancelled _ =>
      (.error f, if a.showsCommitted then p.apply (.publish (.still p.engine.committed)) else p)
    | f => (.error f, p)
  | (.ok (), watch) =>
    let q := { p with watch }.applyAll (p.engine.resume a).effects
    match _h : (p.engine.resume a).next with
    | .pause seconds b => q.follow seconds b
    | .done answer => (.ok answer, q)
    | .failed f => (.error f, q)
termination_by Action.rest p.engine.settings a
decreasing_by
  rw [settings_applyAll]
  exact Action.rest_resume_lt _h

def perform (p : Performance) (a : Action) : Except Fault Answer × Performance :=
  let s := p.engine.begin a
  let q := p.applyAll s.effects
  match s.next with
  | .pause seconds b => q.follow seconds b
  | .done answer => (.ok answer, q)
  | .failed f => (.error f, q)

def refresh (p : Performance) : Performance :=
  { p with watch := { p.watch with token := .fresh, timers := [], ripe := [] }, sightings := []
           remarks := [], completions := 0, stopAt := none }

def reset (p : Performance) (pose : Option PoseEntry) : Except Fault Unit × Performance :=
  match p.engine.resetStance pose with
  | .ok s => (.ok (), p.apply (.commit s))
  | .error f => (.error f, p)

end Performance

end Courier
