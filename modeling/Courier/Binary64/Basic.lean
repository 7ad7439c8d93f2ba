namespace Courier

/-- The quotient of two naturals rounded to the nearest natural, ties to even. -/
def roundHalfEven (n d : Nat) : Nat :=
  let m := n / d
  let r := n % d
  if d < 2*r ∨ (2*r = d ∧ m % 2 = 1) then m+1 else m

namespace Binary64

/-- Significand and exponent of a finite number: full precision unless the exponent is least. -/
def Canonical (m q : Nat) : Prop := m < 1 <<< 53 ∧ (q = 0 ∨ 1 <<< 52 ≤ m) ∧ q ≤ 2045

instance (m q : Nat) : Decidable (Canonical m q) := by unfold Canonical; infer_instance

end Binary64

/-- Binary64 numbers with a single NaN. A finite number is `±m * 2^q` units of `2^-1074`; the
canonical form makes the representation unique. -/
inductive Binary64
  | nan
  | infinite (negative : Bool)
  | finite (negative : Bool) (m q : Nat) (canonical : Binary64.Canonical m q)
  deriving DecidableEq

namespace Binary64

/-- The number one in units of `2^-1074`. -/
def unit : Nat := 1 <<< 1074

def zero (negative : Bool) : Binary64 := .finite negative 0 0 (by decide)

instance : Inhabited Binary64 := ⟨zero false⟩

/-- The number closest to `n/d` units, ties to even; past the largest finite number, infinity. -/
def nearest (negative : Bool) (n d : Nat) : Binary64 :=
  let q := Nat.log2 (n/d) - 52
  let m := roundHalfEven n (d <<< q)
  let (m, q) := if m = 1 <<< 53 then (1 <<< 52, q+1) else (m, q)
  if h : Canonical m q then .finite negative m q h else .infinite negative

def ofInt (i : Int) : Binary64 := nearest (decide (i < 0)) (i.natAbs*unit) 1

def ofNat (n : Nat) : Binary64 := ofInt n

def ofRatio (n d : Nat) : Binary64 := nearest false (n*unit) d

/-- A finite number in signed units. -/
def units (negative : Bool) (m q : Nat) : Int :=
  if negative then -((m <<< q : Nat) : Int) else ((m <<< q : Nat) : Int)

def ofUnits (negative : Bool) (i : Int) : Binary64 :=
  nearest (if i = 0 then negative else decide (i < 0)) i.natAbs 1

def isFinite : Binary64 → Bool
  | .finite .. => true
  | _ => false

def neg : Binary64 → Binary64
  | .nan => .nan
  | .infinite s => .infinite (!s)
  | .finite s m q h => .finite (!s) m q h

/-- An exact zero sum is negative only if both terms are. -/
def add : Binary64 → Binary64 → Binary64
  | .nan, _ => .nan
  | _, .nan => .nan
  | .infinite s, .infinite t => if s = t then .infinite s else .nan
  | .infinite s, _ => .infinite s
  | _, .infinite t => .infinite t
  | .finite s m q _, .finite t n r _ => ofUnits (s && t) (units s m q + units t n r)

def sub (x y : Binary64) : Binary64 := add x (neg y)

def mul : Binary64 → Binary64 → Binary64
  | .nan, _ => .nan
  | _, .nan => .nan
  | .infinite s, .infinite t => .infinite (s != t)
  | .infinite s, .finite t n _ _ => if n = 0 then .nan else .infinite (s != t)
  | .finite s m _ _, .infinite t => if m = 0 then .nan else .infinite (s != t)
  | .finite s m q _, .finite t n r _ => nearest (s != t) ((m*n) <<< (q+r)) unit

def div : Binary64 → Binary64 → Binary64
  | .nan, _ => .nan
  | _, .nan => .nan
  | .infinite _, .infinite _ => .nan
  | .infinite s, .finite t _ _ _ => .infinite (s != t)
  | .finite s _ _ _, .infinite t => zero (s != t)
  | .finite s m q _, .finite t n r _ =>
    if n = 0 then (if m = 0 then .nan else .infinite (s != t))
    else nearest (s != t) ((m <<< q)*unit) (n <<< r)

/-- Order of two numbers that are not NaN: infinities lie outside all finite numbers. -/
def compare? : Binary64 → Binary64 → Option Ordering
  | .nan, _ => none
  | _, .nan => none
  | .infinite s, .infinite t => some (if s = t then .eq else if s then .lt else .gt)
  | .infinite s, .finite .. => some (if s then .lt else .gt)
  | .finite .., .infinite t => some (if t then .gt else .lt)
  | .finite s m q _, .finite t n r _ => some (compare (units s m q) (units t n r))

def lt (x y : Binary64) : Bool := compare? x y == some .lt

def le (x y : Binary64) : Bool := compare? x y == some .lt || compare? x y == some .eq

/-- Numeric equality: the zeros agree and NaN differs from everything. -/
def eq (x y : Binary64) : Bool := compare? x y == some .eq

def toInt? : Binary64 → Option Int
  | .finite s m q _ =>
    if units s m q % unit = 0 then some (units s m q / unit) else none
  | _ => none

/-- The nearest integer of a finite number, ties to even. -/
def round? : Binary64 → Option Int
  | .finite s m q _ =>
    let r : Int := roundHalfEven (m <<< q) unit
    some (if s then -r else r)
  | _ => none

/-- The integer part of a finite number, cut toward zero. -/
def truncate? : Binary64 → Option Int
  | .finite s m q _ => some ((units s m q).tdiv unit)
  | _ => none

/-- The remainder by a positive whole number, in `[0, d]`: the exact remainder toward zero, moved up
by `d` if it is negative. -/
def modNat (x : Binary64) (d : Nat) : Binary64 :=
  match x with
  | .finite s m q _ =>
    let r := (units s m q).tmod ((d : Int)*unit)
    if r < 0 then add (ofUnits false r) (ofNat d) else ofUnits false r
  | _ => .nan

/-- The interchange format: sign, eleven exponent bits, fifty-two fraction bits. -/
def toBits : Binary64 → Nat
  | .nan => 0x7ff8000000000000
  | .infinite s => (if s then 1 <<< 63 else 0) + 0x7ff0000000000000
  | .finite s m q _ => (if s then 1 <<< 63 else 0) + q <<< 52 + m

end Binary64

end Courier
