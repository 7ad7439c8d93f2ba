import Courier.Json.Members

namespace Courier

/-- A cancellation flag; a cancelled token keeps its reason, a value of any kind. -/
structure Token where
  reason : Option Json.Value

namespace Token

def fresh : Token := ⟨none⟩

def isCancelled (t : Token) : Bool := t.reason.isSome

/-- Only the first cancellation counts. -/
def cancel (t : Token) (reason : Json.Value) : Token :=
  match t.reason with
  | some _ => t
  | none => ⟨some reason⟩

theorem isCancelled_cancel (t : Token) (reason : Json.Value) : (t.cancel reason).isCancelled := by
  unfold cancel
  cases h : t.reason with
  | none => rfl
  | some r => simp [isCancelled, h]

/-- Fails with the reason, if there is one. -/
def check (t : Token) : Except Fault Unit :=
  match t.reason with
  | some r => .error (.cancelled (if r.isFilled then r.plain else "cancelled"))
  | none => .ok ()

end Token

structure Timer where
  due : Binary64
  reason : Json.Value

/-- A token on a clock. -/
structure Watch where
  now : Binary64
  token : Token
  timers : List Timer
  /-- Timers that were due at the last pause; they cancel at the next one. -/
  ripe : List Timer

namespace Watch

def start : Watch := ⟨Binary64.zero false, .fresh, [], []⟩

def cancel (w : Watch) (reason : Json.Value) : Watch :=
  { w with token := w.token.cancel reason }

def earliest : List Timer → Option Timer
  | [] => none
  | t :: ts =>
    match earliest ts with
    | some u => some (if u.due.lt t.due then u else t)
    | none => some t

def next? (w : Watch) : Option Timer :=
  match earliest w.ripe with
  | some t => some t
  | none => earliest w.timers

/-- The time some seconds from now; a number of seconds that is NaN ends at the time `next`. -/
def timeAfter (now next : Binary64) (seconds : Number) : Except NumberFault Binary64 := do
  let time ← (← Number.add (.float now) seconds).toBinary64
  return if time = .nan then next else time

/-- The time some seconds from now; a number that is NaN ends with the next timer, or at once. -/
def after (w : Watch) (seconds : Number) : Except NumberFault Binary64 :=
  timeAfter w.now ((w.next?.map (·.due)).getD w.now) seconds

def cancelAfter (w : Watch) (seconds : Number) (reason : Json.Value) : Except Fault Watch := do
  return { w with timers := w.timers ++ [⟨← w.after seconds, reason⟩] }

/-- A timer cancels the token, now or when it is due. -/
def fire (w : Watch) (t : Timer) : Except Fault Unit × Watch :=
  let token := w.token.cancel t.reason
  (token.check, { w with now := if t.due.lt w.now then w.now else t.due, token })

/-- A pause without length: timers that were due at the pause before cancel the token. -/
def yieldOnce (w : Watch) : Except Fault Unit × Watch :=
  match earliest w.ripe with
  | some t => w.fire t
  | none =>
    (.ok (), { w with
      ripe := w.timers.filter (·.due.le w.now)
      timers := w.timers.filter (fun t => !t.due.le w.now) })

/-- A pause up to a time, unless a timer is due by then. The clock jumps there, also to a time that
is infinitely far off, which no clock that runs ever comes to. -/
def sleepUntil (w : Watch) (wake : Binary64) : Except Fault Unit × Watch :=
  match w.next? with
  | some t => if t.due.le wake then w.fire t else (.ok (), { w with now := wake })
  | none => (.ok (), { w with now := wake })

/-- Sleeps for a number of seconds, none for a number that is not positive. A cancelled token fails
before the sleep; a timer that is due by its end ends it early and cancels the token. -/
def sleep (w : Watch) (seconds : Number) : Except Fault Unit × Watch :=
  match w.token.check with
  | .error f => (.error f, w)
  | .ok () =>
    if seconds.le (.int 0) then w.yieldOnce
    else
      match w.after seconds with
      | .error f => (.error (.number f), w)
      | .ok wake => w.sleepUntil wake

/-- Sleeps for a value of any kind, which must be a number of seconds unless the token is
cancelled. -/
def sleepFor (w : Watch) (v : Json.Value) : Except Fault Unit × Watch :=
  match (do w.token.check; v.toNumber) with
  | .ok seconds => w.sleep seconds
  | .error f => (.error f, w)

end Watch

end Courier
