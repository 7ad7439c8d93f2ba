import Courier.Binary64.Basic

namespace Courier.Binary64

/-- The number closest to `digits * 10^exponent`. -/
def ofDecimal (negative : Bool) (digits : Nat) (exponent : Int) : Binary64 :=
  if digits = 0 then zero negative
  else if 400 < exponent then .infinite negative
  else if exponent < -(Nat.log2 digits + 401 : Int) then zero negative
  else if 0 ≤ exponent then nearest negative (digits*Nat.pow 10 exponent.toNat*unit) 1
  else nearest negative (digits*unit) (Nat.pow 10 (-exponent).toNat)

/-- The bounds, in quarter units, of the interval that rounds to a positive number; the gap below a
power of two is half as wide. -/
def bounds (m q : Nat) : Nat × Nat :=
  let below := if m = 1 <<< 52 ∧ 0 < q then 1 <<< q else 2 <<< q
  (4*(m <<< q) - below, 4*(m <<< q) + (2 <<< q))

/-- The number of digits before the point of a positive quotient, nonpositive for zeros after it. -/
def magnitude (n d : Nat) : Int :=
  if d ≤ n then ((Nat.toDigits 10 (n/d)).length : Int)
  else go 400 n 0
where
  go : Nat → Nat → Nat → Int
    | 0, _, zeros => -zeros
    | fuel+1, n, zeros => if d ≤ 10*n then -zeros else go fuel (10*n) (zeros+1)

/-- The multiple of `10^k` next to a number and inside its interval, if there is one: of two the
closer, of two equally close the even one. The interval is closed for even significands. -/
def gridPoint? (m q : Nat) (k : Int) : Option Nat :=
  let up := Nat.pow 10 (-k).toNat
  let a := (m <<< q)*up
  let b := unit*Nat.pow 10 k.toNat
  let (low, high) := bounds m q
  let c := a / b
  let r := a % b
  let lowOk := if m % 2 = 0 then low*up ≤ 4*(c*b) else low*up < 4*(c*b)
  let highOk := if m % 2 = 0 then 4*((c+1)*b) ≤ high*up else 4*((c+1)*b) < high*up
  if lowOk ∧ 0 < c then
    if highOk ∧ (b < 2*r ∨ (2*r = b ∧ c % 2 = 1)) then some (c+1) else some c
  else if highOk then some (c+1) else none

def shortest (m q : Nat) : Nat × Int :=
  let p := magnitude (m <<< q) unit
  go p 17 1
where
  go (p : Int) : Nat → Nat → Nat × Int
    | 0, places => ((m <<< q), -(places : Int))
    | left+1, places =>
      match gridPoint? m q (p-places) with
      | some c => (c, p-places)
      | none => go p left (places+1)

/-- A decimal without trailing zeros. -/
def dropZeros (digits : List Char) : List Char :=
  (digits.reverse.dropWhile (· = '0')).reverse

/-- Positional from `0.0001` to below `10^16`, with `.0` after a whole number; otherwise one digit
before the point and a signed exponent of at least two digits. -/
def layout (digits : List Char) (point : Int) : List Char :=
  if -4 < point ∧ point ≤ 16 then
    if point ≤ 0 then ['0', '.'] ++ List.replicate (-point).toNat '0' ++ digits
    else if (digits.length : Int) ≤ point then
      digits ++ List.replicate (point.toNat - digits.length) '0' ++ ['.', '0']
    else digits.take point.toNat ++ '.' :: digits.drop point.toNat
  else
    let e := point-1
    let places := Nat.toDigits 10 e.natAbs
    digits.take 1 ++ (if digits.length = 1 then [] else '.' :: digits.drop 1)
      ++ ['e', if e < 0 then '-' else '+'] ++ (if places.length < 2 then '0' :: places else places)

/-- The shortest text that reads back as the same number. -/
def text : Binary64 → String
  | .nan => "nan"
  | .infinite s => if s then "-inf" else "inf"
  | .finite s m q _ =>
    let sign := if s then ['-'] else []
    if m = 0 then String.ofList (sign ++ ['0', '.', '0'])
    else
      let (c, k) := shortest m q
      let digits := Nat.toDigits 10 c
      String.ofList (sign ++ layout (dropZeros digits) (digits.length + k))

end Courier.Binary64
