import Courier.Pose.Frame
import Courier.Settings.Wait

namespace Courier

inductive Action
  /-- Up to a number of unit moves, ahead or backward. -/
  | move (backward : Bool) (steps : Int)
  | turn (left : Bool)
  | pickup
  | dropoff
  deriving DecidableEq

/-- What an action that ends tells. -/
inductive Answer
  | moved (cells : Nat)
  | turned
  /-- Whether a pickup or dropoff had an effect. -/
  | handled (done : Bool)
  deriving DecidableEq

/-- What an action leaves in the log. -/
inductive Remark
  | blocked (target : Cell) (heading : Heading)
  | nothingToTake (cell : Cell)
  | nowhereToDeliver (cell : Cell)
  | delivered (cell : Cell)
  deriving DecidableEq

namespace Remark

def message : Remark → String
  | blocked target heading =>
    "Move blocked at " ++ cellText target.1 target.2 ++ " heading " ++ heading.name
  | nothingToTake cell =>
    "Pickup ignored: " ++ cellText cell.1 cell.2 ++ " is not next to a pickup cell"
  | nowhereToDeliver cell =>
    "Dropoff ignored: " ++ cellText cell.1 cell.2 ++ " is not next to a dropoff cell"
  | delivered cell => "Level completed at " ++ cellText cell.1 cell.2

/-- Whether a remark is more than a detail. -/
def isNews : Remark → Bool
  | delivered _ => true
  | _ => false

end Remark

inductive Effect
  | publish (f : Frame)
  /-- A new stance counts from now on; it is shown too. -/
  | commit (s : Stance)
  | complete
  | remark (r : Remark)

structure Trek where
  backward : Bool
  left : Nat
  moved : Nat
  deriving DecidableEq

/-- One step in the direction of a move. -/
def Trek.sign (t : Trek) : Int := if t.backward then -1 else 1

/-- Where an action pauses. -/
inductive Activity
  /-- Before frame `k` of a move, with its rest, or of a turn. -/
  | gliding (origin target : Stance) (k : Nat) (trek : Option Trek)
  /-- After a unit move. -/
  | settling (trek : Trek)
  /-- Before frame `k` of the squash that takes or delivers the cargo. -/
  | squashing (origin : Stance) (k : Nat) (taking : Bool)

/-- Whether a cancelled pause shows the committed stance again. -/
def Activity.showsCommitted : Activity → Bool
  | gliding .. => true
  | settling _ => false
  | squashing .. => true

inductive Progress
  | pause (seconds : Number) (a : Activity)
  | done (a : Answer)
  | failed (f : Fault)

structure Stretch where
  effects : List Effect
  next : Progress

namespace Stretch

def after (es : List Effect) (s : Stretch) : Stretch := { s with effects := es ++ s.effects }

def done (a : Answer) : Stretch := ⟨[], .done a⟩

/-- A pause whose length may fail to be a number. -/
def pause (seconds : Except NumberFault Number) (a : Activity) : Stretch :=
  match seconds with
  | .ok s => ⟨[], .pause s a⟩
  | .error f => ⟨[], .failed (.number f)⟩

end Stretch

namespace Action

def glide (m : MotionSettings) (origin target : Stance) (trek : Option Trek) : Stretch :=
  match m.frames.count with
  | .error f => ⟨[], .failed (.number f)⟩
  | .ok _ => .pause m.frameInterval (.gliding origin target 1 trek)

/-- The next unit move of a trek, or its end. -/
def stride (m : MotionSettings) (w : World) (s : Stance) (t : Trek) : Stretch :=
  match t.left with
  | 0 => .done (.moved t.moved)
  | left+1 =>
    let target := s.ahead t.sign
    if w.canEnter target then glide m s { s with cell := target } (some { t with left })
    else ⟨[.remark (.blocked target s.heading)], .done (.moved t.moved)⟩

def squash (m : MotionSettings) (s : Stance) (taking : Bool) : Stretch :=
  match m.squashInterval, m.squashFrames.count with
  | .error f, _ => ⟨[], .failed (.number f)⟩
  | .ok _, .error f => ⟨[], .failed (.number f)⟩
  | .ok interval, .ok _ => .pause (.ok interval) (.squashing s 1 taking)

/-- The first stretch of an action from a stance. A move has at least one step; a pickup needs free
hands and a pickup cell beside the agent, a dropoff needs cargo and a dropoff cell. -/
def begin (m : MotionSettings) (w : World) (s : Stance) : Action → Stretch
  | .move backward steps => stride m w s ⟨backward, (max 1 steps).toNat, 0⟩
  | .turn left => glide m s { s with heading := s.heading.turned (if left then -1 else 1) } none
  | .pickup =>
    if s.isCarrying then .done (.handled false)
    else if w.isBeside s.cell .pickup then squash m s true
    else ⟨[.remark (.nothingToTake s.cell)], .done (.handled false)⟩
  | .dropoff =>
    if s.isCarrying then
      if w.isBeside s.cell .dropoff then squash m s false
      else ⟨[.remark (.nowhereToDeliver s.cell)], .done (.handled false)⟩
    else .done (.handled false)

/-- The frame at the end of pause `k` of a squash with `n` frames: the first half sinks, the rest
rises. -/
def squashFrame (s : Stance) (k n : Nat) : Frame :=
  if k ≤ n/2 then .sink s k (n/2) else .rise s (k - n/2) (n - n/2)

/-- The number of steps that a value asks for: a number without its fraction, or a text. -/
def stepsOf (v : Json.Value) : Except Fault Int :=
  match v with
  | .text t => Number.readInt t
  | v => do (← v.toNumber).truncate

def glideLength (m : MotionSettings) : Nat := (m.frames.toInt?.getD 1).toNat

def squashLength (m : MotionSettings) : Nat := (m.squashFrames.toInt?.getD 4).toNat

/-- The stretch after a pause that was not cancelled, from the committed stance. -/
def resume (m : MotionSettings) (w : World) (s : Stance) : Activity → Stretch
  | .gliding origin target k trek =>
    let n := glideLength m
    let shown : List Effect := [.publish (.glide origin target k n)]
    if k < n then .after shown (.pause m.frameInterval (.gliding origin target (k+1) trek))
    else
      .after (shown ++ [.commit target])
        (match trek with
          | none => .done .turned
          | some t => .pause m.settlePause (.settling { t with moved := t.moved+1 }))
  | .settling t => stride m w s t
  | .squashing origin k taking =>
    let n := squashLength m
    let shown : List Effect := [.publish (squashFrame origin k n)]
    if k < n then .after shown (.pause m.squashInterval (.squashing origin (k+1) taking))
    else
      let handled : List Effect :=
        [.publish (.still origin), .commit { s with cargo := .bool taking }]
          ++ (if taking then [] else [.complete, .remark (.delivered origin.cell)])
      ⟨shown ++ handled, .done (.handled true)⟩

/-- A bound on the pauses from an activity on. -/
def rest (m : MotionSettings) : Activity → Nat
  | .gliding _ _ k none => glideLength m + 1 - k
  | .gliding _ _ k (some t) => t.left*(glideLength m + 2) + (glideLength m + 1 - k) + 1
  | .settling t => t.left*(glideLength m + 2)
  | .squashing _ k _ => squashLength m + 1 - k

theorem pause_next {seconds : Except NumberFault Number} {a b : Activity} {t : Number}
    (h : (Stretch.pause seconds a).next = .pause t b) : b = a := by
  unfold Stretch.pause at h
  split at h <;> simp_all

theorem rest_glide_lt {m : MotionSettings} {origin target : Stance} {t : Trek} {a : Activity}
    {seconds : Number} (h : (glide m origin target (some t)).next = .pause seconds a) :
    rest m a < (t.left+1)*(glideLength m + 2) := by
  unfold glide at h
  split at h
  · simp at h
  · rw [pause_next h, rest, Nat.succ_mul]
    omega

theorem rest_stride_lt {m : MotionSettings} {w : World} {s : Stance} {t : Trek} {a : Activity}
    {seconds : Number} (h : (stride m w s t).next = .pause seconds a) :
    rest m a < t.left*(glideLength m + 2) := by
  unfold stride at h
  split at h
  · simp [Stretch.done] at h
  · next left hl =>
    dsimp only at h
    split at h
    · rw [hl]; exact rest_glide_lt h
    · simp at h

/-- Each pause leaves less to do. -/
theorem rest_resume_lt {m : MotionSettings} {w : World} {s : Stance} {a b : Activity}
    {seconds : Number} (h : (resume m w s a).next = .pause seconds b) : rest m b < rest m a := by
  cases a with
  | gliding origin target k trek =>
    simp only [resume] at h
    split at h
    · rw [pause_next h]
      cases trek <;> simp only [rest] <;> omega
    · cases trek with
      | none => simp [Stretch.after, Stretch.done] at h
      | some t => rw [pause_next h]; simp only [rest]; omega
  | settling t => exact rest_stride_lt h
  | squashing origin k taking =>
    simp only [resume] at h
    split at h
    · rw [pause_next h]; simp only [rest]; omega
    · simp at h

end Action

end Courier
