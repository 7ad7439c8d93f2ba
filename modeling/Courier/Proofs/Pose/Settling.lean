import Courier.Proofs.Json.Equality
import Courier.Proofs.Pose.Exact

namespace Courier

open Json (Value)

namespace PoseEntry

/-- Whether two poses are equal, part by part. A cargo equals itself, whatever it is. -/
def equal (p q : PoseEntry) : Bool :=
  Value.equal true p.x q.x && Value.equal true p.y q.y &&
    Value.equal true p.direction q.direction && Value.equal true p.cargo q.cargo &&
    Value.equal true p.scale q.scale && Value.equal true p.moving q.moving

/-- The pose of an agent that rests in a stance. -/
def resting (s : Stance) : PoseEntry :=
  let p := s.pose Binary64
  { x := .float p.x, y := .float p.y, direction := .float p.direction, cargo := s.cargo
    scale := .float p.scale, moving := .bool p.moving }

/-- The stance next to a pose, if its coordinates are binary64 numbers. -/
structure Nears (e : PoseEntry) (s : Stance) : Prop where
  cell : e.cell = .ok s.cell
  heading : e.heading = .ok s.heading
  cargo : e.cargo = s.cargo
  x : (Binary64.ofInt s.cell.1).toInt? = some s.cell.1
  y : (Binary64.ofInt s.cell.2).toInt? = some s.cell.2

theorem cell_of_round? {e : PoseEntry} {x y : Binary64} {i j : Int} (hx : e.x = .float x)
    (hy : e.y = .float y) (hi : x.round? = some i) (hj : y.round? = some j) :
    e.cell = .ok (i, j) := by
  unfold cell
  rw [hx, hy]
  change (do return (← Number.round (.float x), ← Number.round (.float y)) : Except Fault Cell) = _
  rw [lift_ok (Number.round_of_round? hi), ok_bind, lift_ok (Number.round_of_round? hj), ok_bind]
  rfl

theorem heading_of_round? {e : PoseEntry} {d : Binary64} {k : Int} (hd : e.direction = .float d)
    (hk : d.round? = some k) : e.heading = .ok (.ofInt k) := by
  have hnearest : Heading.nearest (.float d) = .ok (.ofInt k) := by
    unfold Heading.nearest
    rw [Number.round_of_round? hk]
    rfl
  unfold heading
  rw [hd]
  exact lift_ok hnearest

namespace Nears

variable {e : PoseEntry} {s : Stance} (h : e.Nears s)

include h

theorem ahead : e.ahead = .ok (s.ahead 1) := by
  unfold PoseEntry.ahead
  rw [h.cell, ok_bind, h.heading, ok_bind]
  rfl

theorem stance : e.stance = .ok s := by
  have hx := Number.round_of_round? (Binary64.round?_of_toInt? h.x)
  have hy := Number.round_of_round? (Binary64.round?_of_toInt? h.y)
  unfold PoseEntry.stance
  rw [h.cell, ok_bind, lift_ok (Number.toBinary64_of_toInt? h.x), ok_bind,
    lift_ok (Number.toBinary64_of_toInt? h.y), ok_bind, h.heading, ok_bind, lift_ok hx, ok_bind,
    lift_ok hy, ok_bind, h.cargo]
  rfl

theorem settled : e.settled = .ok (resting s) := by
  unfold PoseEntry.settled
  rw [h.stance, ok_bind, h.cargo]
  rfl

/-- Resting in a stance is next to it. -/
theorem resting : (resting s).Nears s where
  cell := cell_of_round? rfl rfl (Binary64.round?_of_toInt? h.x) (Binary64.round?_of_toInt? h.y)
  heading := by
    have hlt : s.heading.toNat < 4 := by cases s.heading <;> decide
    have hk : (Binary64.ofInt s.heading.toNat).toInt? = some s.heading.toNat :=
      Binary64.toInt?_ofInt (by omega)
    rw [heading_of_round? rfl (Binary64.round?_of_toInt? hk), Heading.ofInt_toNat]
  cargo := rfl
  x := h.x
  y := h.y

end Nears

section Equality

variable {x d : Binary64} {i k : Int}

/-- A number equals the integer next to it if it is whole. -/
theorem equal_round (hi : x.round? = some i) (he : (Binary64.ofInt i).toInt? = some i) :
    Value.equal true (.float (.ofInt i)) (.float x) ↔ ∃ j, x.toInt? = some j := by
  rw [Value.equal_of_toInt? he, Value.equal_int_float]
  constructor
  · intro h
    exact ⟨i, h⟩
  · rintro ⟨j, hj⟩
    have hround := Binary64.round?_of_toInt? hj
    rw [hi] at hround
    cases hround
    exact hj

/-- A direction equals the heading next to it if it is one of the four. -/
theorem equal_heading (hk : d.round? = some k) :
    Value.equal true (.float (.ofInt (Heading.ofInt k).toNat)) (.float d) ↔
      ∃ n : Nat, n < 4 ∧ d.toInt? = some (n : Int) := by
  have hlt : (Heading.ofInt k).toNat < 4 := by cases Heading.ofInt k <;> decide
  rw [Value.equal_of_toInt? (Binary64.toInt?_ofInt (by omega)), Value.equal_int_float]
  constructor
  · intro h
    exact ⟨_, hlt, h⟩
  · rintro ⟨n, hn, h⟩
    have hround := Binary64.round?_of_toInt? h
    rw [hk] at hround
    cases hround
    rw [Heading.toNat_ofInt, Int.emod_eq_of_lt (by omega) (by omega)]
    exact h

theorem equal_one (s : Stance) (v : Value) :
    Value.equal true (resting s).scale v = Value.equal true (.int 1) v := by
  have hone : (Binary64.ofInt 1).toInt? = some 1 := Binary64.toInt?_ofInt (by decide)
  simp only [resting, Stance.pose, Scalar.ofInt]
  exact Value.equal_of_toInt? hone v

end Equality

section Finite

variable {x y d : Binary64}

/-- Next to a pose in finite numbers there is a stance. -/
theorem exists_nears {e : PoseEntry} (hx : e.x = .float x) (hy : e.y = .float y)
    (hd : e.direction = .float d) (hfx : x.isFinite) (hfy : y.isFinite) (hfd : d.isFinite) :
    ∃ i j k, x.round? = some i ∧ y.round? = some j ∧ d.round? = some k ∧
      e.Nears ⟨(i, j), .ofInt k, e.cargo⟩ := by
  obtain ⟨i, hi, hix⟩ := Binary64.exists_round hfx
  obtain ⟨j, hj, hjy⟩ := Binary64.exists_round hfy
  obtain ⟨k, hk, _⟩ := Binary64.exists_round hfd
  exact ⟨i, j, k, hi, hj, hk, cell_of_round? hx hy hi hj, heading_of_round? hd hk, rfl, hix, hjy⟩

/-- Whatever finite numbers a pose has, it settles, and what it has settled to stays as it is, with
whole coordinates and one of the four directions. The cell, the heading, the cell ahead and the
cargo do not change, and nothing does if the pose was settled. -/
theorem settled_projects (hx : x.isFinite) (hy : y.isFinite) (hd : d.isFinite)
    (cargo scale moving : Value) :
    let e : PoseEntry := ⟨.float x, .float y, .float d, cargo, scale, moving⟩
    ∃ (p : PoseEntry) (c ahead : Cell) (h : Heading),
      e.settled = .ok p ∧ p.settled = .ok p ∧
      e.cell = .ok c ∧ p.cell = .ok c ∧ e.heading = .ok h ∧ p.heading = .ok h ∧
      e.ahead = .ok ahead ∧ p.ahead = .ok ahead ∧ p.cargo = cargo ∧
      (∃ u, p.x = .float u ∧ u.toInt? = some c.1) ∧ (∃ v, p.y = .float v ∧ v.toInt? = some c.2) ∧
      (∃ u, p.direction = .float u ∧ ∃ n : Nat, n < 4 ∧ u.toInt? = some (n : Int)) ∧
      (p.equal e ↔ (∃ i, x.toInt? = some i) ∧ (∃ j, y.toInt? = some j) ∧
        (∃ n : Nat, n < 4 ∧ d.toInt? = some (n : Int)) ∧ Value.equal true (.int 1) scale ∧
        Value.equal true (.bool false) moving) := by
  intro e
  obtain ⟨i, j, k, hi, hj, hk, hn⟩ := exists_nears (e := e) rfl rfl rfl hx hy hd
  have hp := hn.resting
  have hlt : (Heading.ofInt k).toNat < 4 := by cases Heading.ofInt k <;> decide
  have hu : (Binary64.ofInt (Heading.ofInt k).toNat).toInt? =
      some ((Heading.ofInt k).toNat : Int) := Binary64.toInt?_ofInt (by omega)
  refine ⟨_, _, _, _, hn.settled, hp.settled, hn.cell, hp.cell, hn.heading, hp.heading, hn.ahead,
    hp.ahead, rfl, ⟨_, rfl, hn.x⟩, ⟨_, rfl, hn.y⟩, ⟨_, rfl, _, hlt, hu⟩, ?_⟩
  have hxi := equal_round hi hn.x
  have hyj := equal_round hj hn.y
  have hdk := equal_heading hk
  unfold equal
  rw [equal_one]
  simp only [Bool.and_eq_true]
  constructor
  · rintro ⟨⟨⟨⟨⟨hxe, hye⟩, hde⟩, _⟩, hse⟩, hme⟩
    exact ⟨hxi.mp hxe, hyj.mp hye, hdk.mp hde, hse, hme⟩
  · rintro ⟨hxe, hye, hde, hse, hme⟩
    exact ⟨⟨⟨⟨⟨hxi.mpr hxe, hyj.mpr hye⟩, hdk.mpr hde⟩, Value.equal_self cargo⟩, hse⟩, hme⟩

/-- A pose between cells, turned past a full turn: it settles to another pose on the even cell. -/
theorem settled_projects_halfway :
    let x := Binary64.ofRatio 5 2
    let y := Binary64.ofRatio 1 2
    let d := Binary64.ofRatio 11 2
    let e : PoseEntry := ⟨.float x, .float y, .float d, .text "cargo", .float x, .bool true⟩
    (x.isFinite ∧ y.isFinite ∧ d.isFinite) ∧
      ∃ p, e.settled = .ok p ∧ p.settled = .ok p ∧ p.cell = .ok (2, 0) ∧
        p.heading = .ok .south ∧ p.cargo = .text "cargo" ∧ ¬p.equal e := by
  intro x y d e
  have hx : x.isFinite := by decide +kernel
  have hy : y.isFinite := by decide +kernel
  have hd : d.isFinite := by decide +kernel
  obtain ⟨p, c, ahead, h, hp, hpp, hc, hpc, hh, hph, _, _, hcargo, _, _, _, heq⟩ :=
    settled_projects hx hy hd (.text "cargo") (.float x) (.bool true)
  have hec : e.cell = .ok (2, 0) :=
    cell_of_round? (x := x) rfl rfl (by decide +kernel) (by decide +kernel)
  have heh : e.heading = .ok (.ofInt 6) := heading_of_round? (d := d) rfl (by decide +kernel)
  cases hec.symm.trans hc
  cases heh.symm.trans hh
  refine ⟨⟨hx, hy, hd⟩, p, hp, hpp, hpc, hph, hcargo, fun hpe => ?_⟩
  have hmoving := (heq.mp hpe).2.2.2.2
  revert hmoving
  decide

end Finite

end PoseEntry

end Courier
