import Courier.Proofs.Engine.Conclusion
import Courier.Grid.Reach

namespace Courier

/-- Cells that no move leaves; beside a pickup cell among them cargo can be taken, beside a dropoff
cell it can be delivered. -/
structure Realm (w : World) where
  Has : Cell → Prop
  canTake : Prop
  canDeliver : Prop
  exits : ∀ c d, Has c → d ∈ w.exits c → Has d
  pickup : ∀ c, Has c → w.isBeside c .pickup → canTake
  dropoff : ∀ c, Has c → w.isBeside c .dropoff → canDeliver

/-- All cells that the agent may stand on. -/
def World.standing (w : World) : Realm w where
  Has c := w.canEnter c
  canTake := True
  canDeliver := True
  exits _ _ _ h := (List.mem_filter.mp h).2
  pickup _ _ _ := trivial
  dropoff _ _ _ := trivial

theorem Stance.ahead_mem_exits {w : World} {s : Stance} {sign : Int} (hs : sign = 1 ∨ sign = -1)
    (h : w.canEnter (s.ahead sign)) : s.ahead sign ∈ w.exits s.cell := by
  refine List.mem_filter.mpr ⟨?_, h⟩
  unfold ahead World.beside
  rcases hs with rfl | rfl <;> cases s.heading <;> simp [Heading.delta, Int.sub_eq_add_neg]

theorem sign_cases (backward : Bool) :
    (if backward then -1 else 1 : Int) = 1 ∨ (if backward then -1 else 1 : Int) = -1 := by
  cases backward
  · exact .inl rfl
  · exact .inr rfl

theorem Trek.sign_cases (t : Trek) : t.sign = 1 ∨ t.sign = -1 :=
  Courier.sign_cases t.backward

namespace Realm

variable {w : World} (k : Realm w)

/-- A stance inside a realm with the cargo and the deliveries that are possible in it. -/
structure Fits (s : Stance) (levels : Nat) : Prop where
  cell : k.Has s.cell
  taken : s.isCarrying → k.canTake
  delivered : 0 < levels → k.canTake ∧ k.canDeliver

/-- An activity that stays inside. -/
def Suits : Activity → Prop
  | .gliding _ target _ _ => k.Has target.cell ∧ (target.isCarrying → k.canTake)
  | .settling _ => True
  | .squashing _ _ taking => k.canTake ∧ (taking = false → k.canDeliver)

/-- A stretch that stays inside, and whose pause leaves an activity that does. -/
structure Admits (s : Stance) (levels : Nat) (x : Stretch) : Prop where
  fits : k.Fits (s.after x.effects) (levels + Effect.completions x.effects)
  suits : ∀ seconds a, x.next = .pause seconds a → k.Suits a

variable {k} {m : MotionSettings} {s : Stance} {n : Nat}

theorem admits_done (h : k.Fits s n) (a : Answer) : k.Admits s n (.done a) :=
  ⟨h, fun _ _ hn => by cases hn⟩

theorem admits_failed (h : k.Fits s n) (f : Fault) : k.Admits s n ⟨[], .failed f⟩ :=
  ⟨h, fun _ _ hn => by cases hn⟩

theorem admits_remark (h : k.Fits s n) (r : Remark) (a : Answer) :
    k.Admits s n ⟨[.remark r], .done a⟩ :=
  ⟨h, fun _ _ hn => by cases hn⟩

theorem admits_pause (h : k.Fits s n) {a : Activity} (ha : k.Suits a)
    (seconds : Except NumberFault Number) : k.Admits s n (.pause seconds a) := by
  refine ⟨by cases seconds <;> exact h, ?_⟩
  intro t b hb
  rw [Action.pause_next hb]
  exact ha

theorem admits_after {es : List Effect} {x : Stretch}
    (h : k.Admits (s.after es) (n + Effect.completions es) x) : k.Admits s n (.after es x) where
  fits := by
    have hf := h.fits
    simp only [Stretch.after, Stance.after_append, Effect.completions_append]
    rwa [← Nat.add_assoc]
  suits := h.suits

theorem admits_glide {t : Stance} (h : k.Fits s n) (ht : k.Has t.cell)
    (hc : t.cargo = s.cargo) (trek : Option Trek) :
    k.Admits s n (Action.glide m s t trek) := by
  unfold Action.glide
  cases m.frames.count with
  | error f => exact admits_failed h _
  | ok _ =>
    have hs : k.Suits (.gliding s t 1 trek) := by
      refine ⟨ht, ?_⟩
      intro hcarry
      exact h.taken (by simpa [Stance.isCarrying, hc] using hcarry)
    exact admits_pause h hs _

theorem admits_stride (h : k.Fits s n) (t : Trek) : k.Admits s n (Action.stride m w s t) := by
  unfold Action.stride
  cases t.left with
  | zero => exact admits_done h _
  | succ left =>
    dsimp only
    split
    · next he =>
      have hx := Stance.ahead_mem_exits t.sign_cases he
      exact admits_glide (t := { s with cell := s.ahead t.sign }) h
        (k.exits _ _ h.cell hx) rfl _
    · exact admits_remark h _ _

theorem admits_squash (h : k.Fits s n) {taking : Bool} (ht : k.canTake)
    (hd : taking = false → k.canDeliver) : k.Admits s n (Action.squash m s taking) := by
  unfold Action.squash
  split
  · exact admits_failed h _
  · exact admits_failed h _
  · exact admits_pause h (show k.Suits (.squashing s 1 taking) from ⟨ht, hd⟩) _

/-- The first stretch of an action stays in the realm. -/
theorem admits_begin (h : k.Fits s n) (a : Action) : k.Admits s n (a.begin m w s) := by
  cases a with
  | move backward steps => exact admits_stride h _
  | turn left =>
    exact admits_glide (t := { s with
      heading := s.heading.turned (if left then -1 else 1) }) h h.cell rfl _
  | pickup =>
    unfold Action.begin
    dsimp only
    split
    · exact admits_done h _
    · split
      · next hb => exact admits_squash h (k.pickup _ h.cell hb) (by simp)
      · exact admits_remark h _ _
  | dropoff =>
    unfold Action.begin
    dsimp only
    split
    · next hc =>
      split
      · next hb => exact admits_squash h (h.taken hc) (fun _ => k.dropoff _ h.cell hb)
      · exact admits_remark h _ _
    · exact admits_done h _

theorem admits_resume (h : k.Fits s n) {a : Activity} (ha : k.Suits a) :
    k.Admits s n (Action.resume m w s a) := by
  cases a with
  | gliding origin target i trek =>
    have ht : k.Fits target n := ⟨ha.1, ha.2, h.delivered⟩
    unfold Action.resume
    dsimp only
    split
    · have hs : k.Suits (.gliding origin target (i+1) trek) := ha
      exact admits_after (admits_pause (s := s) h hs _)
    · refine admits_after (n := n) ?_
      cases trek with
      | none => exact admits_done (s := target) ht _
      | some t =>
        have hs : k.Suits (.settling { t with moved := t.moved+1 }) := trivial
        exact admits_pause (s := target) ht hs _
  | settling t => exact admits_stride h t
  | squashing origin i taking =>
    unfold Action.resume
    dsimp only
    split
    · have hs : k.Suits (.squashing origin (i+1) taking) := ha
      exact admits_after (admits_pause (s := s) h hs _)
    · refine ⟨?_, fun _ _ hn => by cases hn⟩
      cases taking with
      | true =>
        have hf : k.Fits { s with cargo := .bool true } n := ⟨h.cell, fun _ => ha.1, h.delivered⟩
        simpa using hf
      | false =>
        have hf : k.Fits { s with cargo := .bool false } (n+1) :=
          ⟨h.cell, fun _ => ha.1, fun _ => ⟨ha.1, ha.2 rfl⟩⟩
        simpa using hf

end Realm

end Courier
