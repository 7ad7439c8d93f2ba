import Courier.Pose.Basic

namespace Courier

inductive Frame
  | still (s : Stance)
  /-- Part `k` of `n` of the way to a target, a cell or a quarter turn away. -/
  | glide (origin target : Stance) (k n : Nat)
  /-- Part `k` of `n` of the way down. -/
  | sink (s : Stance) (k n : Nat)
  /-- Part `k` of `n` of the way back up. -/
  | rise (s : Stance) (k n : Nat)

namespace Frame

variable {α : Type} [Scalar α]

open Scalar

def between (t : α) (a b : Int) : α :=
  add (ofInt a) (mul (sub (ofInt b) (ofInt a)) t)

/-- A glide at part `t` of the way: straight, along the shorter arc. -/
def glidePose (origin target : Stance) (t : α) : Pose α where
  x := between t origin.cell.1 target.cell.1
  y := between t origin.cell.2 target.cell.2
  direction :=
    if lt t (ofInt 1) then
      modFour (add (ofInt origin.heading.toNat)
        (mul (ofInt (origin.heading.shortestTurn target.heading)) t))
    else ofInt target.heading.toNat
  cargo := origin.cargo
  scale := ofInt 1
  moving := decide (origin.cell ≠ target.cell)

/-- The pose of a frame; `low` is the height at the bottom of a squash. -/
def pose (low : α) : Frame → Pose α
  | still s => s.pose α
  | glide origin target k n => glidePose origin target (ratio k n)
  | sink s k n =>
    { s.pose α with scale := sub (ofInt 1) (mul (sub (ofInt 1) low) (ratio k n)) }
  | rise s k n =>
    { s.pose α with scale := add low (mul (sub (ofInt 1) low) (ratio k n)) }

end Frame

end Courier
