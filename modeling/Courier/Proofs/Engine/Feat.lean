import Mathlib.Data.List.Range
import Courier.Proofs.Settings.Timely

namespace Courier

namespace Action

variable {m : MotionSettings} {w : World}

theorem glideLength_eq {n : Nat} (h : m.frames = .int n) : glideLength m = n := by
  simp [glideLength, h, Number.toInt?]

theorem squashLength_eq {n : Nat} (h : m.frames = .int n) : squashLength m = Nat.max 4 (n / 2) := by
  unfold squashLength
  rw [MotionSettings.squashFrames_int h]
  rfl

/-- The frames from number `k` on of an animation with `n` frames. -/
def framesFrom (frame : Nat → Frame) (k n : Nat) : List Effect :=
  (List.range' k (n+1-k)).map (fun i => .publish (frame i))

theorem framesFrom_succ (frame : Nat → Frame) {k n : Nat} (h : k < n) :
    framesFrom frame k n = .publish (frame k) :: framesFrom frame (k+1) n := by
  have hn : n+1-k = (n+1-(k+1))+1 := by omega
  simp [framesFrom, hn, List.range'_succ]

theorem framesFrom_last (frame : Nat → Frame) (n : Nat) :
    framesFrom frame n n = [.publish (frame n)] := by
  have hn : n+1-n = 1 := by omega
  simp [framesFrom, hn]

@[simp] theorem after_framesFrom (s : Stance) (frame : Nat → Frame) (k n : Nat)
    (es : List Effect) : s.after (framesFrom frame k n ++ es) = s.after es := by
  unfold framesFrom
  induction List.range' k (n+1-k) with
  | nil => rfl
  | cons i is ih => exact ih

@[simp] theorem completions_framesFrom (frame : Nat → Frame) (k n : Nat) :
    Effect.completions (framesFrom frame k n) = 0 := by
  unfold framesFrom
  induction List.range' k (n+1-k) with
  | nil => rfl
  | cons i is ih => simpa using ih

/-- What comes after the last frame of a glide. -/
def landing (m : MotionSettings) : Option Trek → Stretch
  | none => .done .turned
  | some t => .pause m.settlePause (.settling { t with moved := t.moved+1 })

/-- A glide shows its frames, commits its target and goes on from there. -/
theorem conclude_gliding {seconds : Number} (hs : m.frameInterval = .ok seconds)
    (s origin target : Stance) (trek : Option Trek) {k : Nat} (hk : k ≤ glideLength m) :
    conclude m w s (resume m w s (.gliding origin target k trek)) =
      ((conclude m w target (landing m trek)).1,
        framesFrom (.glide origin target · (glideLength m)) k (glideLength m) ++
          .commit target :: (conclude m w target (landing m trek)).2) := by
  obtain ⟨x, rfl⟩ := MotionSettings.frameInterval_isFloat hs
  -- the frames still to come, the last one first
  induction hd : glideLength m - k generalizing k with
  | zero =>
    have hkn : k = glideLength m := by omega
    have hr : resume m w s (.gliding origin target k trek) =
        .after [.publish (.glide origin target k (glideLength m)), .commit target]
          (landing m trek) := by
      subst hkn
      simp only [resume, Nat.lt_irrefl, if_false]
      cases trek <;> rfl
    rw [hr, conclude_after, hkn, framesFrom_last]
    rfl
  | succ d ih =>
    have hlt : k < glideLength m := by omega
    have hr : resume m w s (.gliding origin target k trek) =
        .after [.publish (.glide origin target k (glideLength m))]
          (.pause (.ok (.float x)) (.gliding origin target (k+1) trek)) := by
      simp only [resume, hlt, if_true, hs]
    rw [hr, conclude_after, conclude_pause (a := .gliding origin target (k+1) trek) rfl
      (Number.checkPause_float x)]
    have hi := ih (k := k+1) (by omega) (by omega)
    rw [framesFrom_succ _ hlt]
    simp only [Stance.after_publish, Stance.after_nil] at hi ⊢
    simp [Stretch.pause, hi]

theorem conclude_glide (hm : m.IsCounted) {seconds : Number} (hs : m.frameInterval = .ok seconds)
    (s target : Stance) (trek : Option Trek) :
    conclude m w s (glide m s target trek) =
      ((conclude m w target (landing m trek)).1,
        framesFrom (.glide s target · (glideLength m)) 1 (glideLength m) ++
          .commit target :: (conclude m w target (landing m trek)).2) := by
  obtain ⟨x, rfl⟩ := MotionSettings.frameInterval_isFloat hs
  obtain ⟨n, hn, hf⟩ := hm
  have hg : glide m s target trek = .pause (.ok (.float x)) (.gliding s target 1 trek) := by
    simp [glide, hf, Number.count, hs]
  have hl : 1 ≤ glideLength m := by rw [glideLength_eq hf]; exact hn
  rw [hg, conclude_pause (a := .gliding s target 1 trek) rfl (Number.checkPause_float x)]
  simpa [Stretch.pause, Prod.ext_iff] using conclude_gliding (w := w) hs s s target trek hl

/-- What follows the last frame of a squash. -/
def handling (s origin : Stance) (taking : Bool) : List Effect :=
  [.publish (.still origin), .commit { s with cargo := .bool taking }]
    ++ (if taking then [] else [.complete, .remark (.delivered origin.cell)])

theorem resume_squashing {seconds : Number} (hs : m.squashInterval = .ok seconds)
    {s origin : Stance} {taking : Bool} {k : Nat} (hk : k < squashLength m) :
    resume m w s (.squashing origin k taking) =
      .after [.publish (squashFrame origin k (squashLength m))]
        (.pause (.ok seconds) (.squashing origin (k+1) taking)) := by
  simp only [resume, hk, if_true, hs]

theorem squash_timed (hm : m.IsCounted) {seconds : Number} (hs : m.squashInterval = .ok seconds)
    (s : Stance) (taking : Bool) :
    squash m s taking = .pause (.ok seconds) (.squashing s 1 taking) := by
  obtain ⟨n, _, hf⟩ := hm
  simp [squash, MotionSettings.squashFrames_int hf, Number.count, hs]

theorem squashLength_pos (hm : m.IsCounted) : 1 ≤ squashLength m := by
  obtain ⟨n, _, hf⟩ := hm
  rw [squashLength_eq hf]
  exact le_trans (by decide) (Nat.le_max_left 4 (n / 2))

/-- A squash shows its frames and changes the cargo. -/
theorem conclude_squashing {seconds : Number} (hs : m.squashInterval = .ok seconds)
    (s origin : Stance) (taking : Bool) {k : Nat} (hk : k ≤ squashLength m) :
    conclude m w s (resume m w s (.squashing origin k taking)) =
      (.ok (.handled true),
        framesFrom (squashFrame origin · (squashLength m)) k (squashLength m) ++
          handling s origin taking) := by
  obtain ⟨x, rfl⟩ := MotionSettings.squashInterval_isFloat hs
  induction hd : squashLength m - k generalizing k with
  | zero =>
    have hkn : k = squashLength m := by omega
    subst hkn
    rw [framesFrom_last]
    rw [conclude_done (a := .handled true)]
    · simp [resume, handling]
    · simp [resume]
  | succ d ih =>
    have hlt : k < squashLength m := by omega
    rw [resume_squashing hs hlt, conclude_after,
      conclude_pause (a := .squashing origin (k+1) taking) rfl (Number.checkPause_float x)]
    have hi := ih (k := k+1) (by omega) (by omega)
    rw [framesFrom_succ _ hlt]
    simp only [Stance.after_publish, Stance.after_nil] at hi ⊢
    simp [Stretch.pause, hi]

theorem conclude_squash (hm : m.IsCounted) {seconds : Number}
    (hs : m.squashInterval = .ok seconds) (s : Stance) (taking : Bool) :
    conclude m w s (squash m s taking) =
      (.ok (.handled true),
        framesFrom (squashFrame s · (squashLength m)) 1 (squashLength m) ++
          handling s s taking) := by
  obtain ⟨x, rfl⟩ := MotionSettings.squashInterval_isFloat hs
  have hl := squashLength_pos hm
  rw [squash_timed hm hs,
    conclude_pause (a := .squashing s 1 taking) rfl (Number.checkPause_float x)]
  simpa [Stretch.pause, Prod.ext_iff] using conclude_squashing (w := w) hs s s taking hl

end Action

/-- What an action comes to. -/
structure Feat where
  answer : Answer
  stance : Stance
  /-- How often the level is completed. -/
  completions : Nat

/-- The number of cells that are free one after another in a direction, up to a bound, and the
stance on the last one. -/
def World.stroll (w : World) (sign : Int) : Nat → Stance → Nat × Stance
  | 0, s => (0, s)
  | n+1, s =>
    if w.canEnter (s.ahead sign) then
      let r := stroll w sign n { s with cell := s.ahead sign }
      (r.1+1, r.2)
    else (0, s)

theorem Stance.ahead_ahead (s : Stance) (i j : Int) :
    Stance.ahead { s with cell := s.ahead i } j = s.ahead (i+j) := by
  simp only [ahead, Prod.mk.injEq]
  constructor <;> ring

/-- A stroll ends as many cells ahead as it passes. -/
theorem World.stroll_ahead (w : World) (sign : Int) (n : Nat) (s : Stance) :
    (w.stroll sign n s).2 = { s with cell := s.ahead (sign * (w.stroll sign n s).1) } := by
  induction n generalizing s with
  | zero => simp [stroll, Stance.ahead]
  | succ n ih =>
    unfold stroll
    by_cases he : w.canEnter (s.ahead sign)
    · simp only [he, if_true]
      rw [ih, Stance.ahead_ahead]
      push_cast
      rw [mul_add, mul_one, add_comm]
    · rw [if_neg he]
      simp [Stance.ahead]

namespace Action

/-- What an action comes to when nothing disturbs it. -/
def feat (w : World) (s : Stance) : Action → Feat
  | .move backward steps =>
    let r := w.stroll (if backward then -1 else 1) (max 1 steps).toNat s
    ⟨.moved r.1, r.2, 0⟩
  | .turn left => ⟨.turned, { s with heading := s.heading.turned (if left then -1 else 1) }, 0⟩
  | .pickup =>
    if !s.isCarrying && w.isBeside s.cell .pickup then
      ⟨.handled true, { s with cargo := .bool true }, 0⟩
    else ⟨.handled false, s, 0⟩
  | .dropoff =>
    if s.isCarrying && w.isBeside s.cell .dropoff then
      ⟨.handled true, { s with cargo := .bool false }, 1⟩
    else ⟨.handled false, s, 0⟩

variable {m : MotionSettings} {w : World}

def Achieves (s : Stance) (r : Except Fault Answer × List Effect) (f : Feat) : Prop :=
  r.1 = .ok f.answer ∧ s.after r.2 = f.stance ∧ Effect.completions r.2 = f.completions

theorem stride_free {s : Stance} {t : Trek} {left : Nat} (hl : t.left = left+1)
    (he : w.canEnter (s.ahead t.sign)) :
    stride m w s t = glide m s { s with cell := s.ahead t.sign } (some { t with left }) := by
  unfold stride
  rw [hl]
  dsimp only
  rw [if_pos he]

theorem stride_blocked {s : Stance} {t : Trek} {left : Nat} (hl : t.left = left+1)
    (he : ¬w.canEnter (s.ahead t.sign)) :
    stride m w s t = ⟨[.remark (.blocked (s.ahead t.sign) s.heading)], .done (.moved t.moved)⟩ := by
  unfold stride
  rw [hl]
  dsimp only
  rw [if_neg he]

/-- A trek onto a free cell glides there, pauses and goes on. -/
theorem conclude_stride_free (hm : m.IsSettling) {interval : Number}
    (hi : m.frameInterval = .ok interval) {s u : Stance} {t : Trek} {left : Nat}
    (hl : t.left = left+1) (hu : u = { s with cell := s.ahead t.sign }) (he : w.canEnter u.cell) :
    let r := conclude m w u (stride m w u { t with left, moved := t.moved+1 })
    conclude m w s (stride m w s t) =
      (r.1, framesFrom (.glide s u · (glideLength m)) 1 (glideLength m) ++ .commit u :: r.2) := by
  subst hu
  obtain ⟨seconds, hs, hp⟩ := hm.settlePause interval hi
  intro r
  have hland : conclude m w { s with cell := s.ahead t.sign } (landing m (some { t with left })) =
      r := by
    rw [landing, hs, conclude_pause (a := .settling { t with left, moved := t.moved+1 }) rfl hp]
    rfl
  rw [stride_free hl he, conclude_glide hm.frames hi, hland]

/-- A trek passes the free cells ahead and stops before the first one that is not. -/
theorem conclude_stride (hm : m.IsSettling) {interval : Number}
    (hi : m.frameInterval = .ok interval) (s : Stance) (t : Trek) :
    Achieves s (conclude m w s (stride m w s t))
      ⟨.moved (t.moved + (w.stroll t.sign t.left s).1), (w.stroll t.sign t.left s).2, 0⟩ := by
  obtain ⟨backward, left, moved⟩ := t
  induction left generalizing s moved with
  | zero =>
    have hd : stride m w s ⟨backward, 0, moved⟩ = .done (.moved moved) := rfl
    rw [hd, conclude_done (a := .moved moved) rfl]
    exact ⟨rfl, rfl, rfl⟩
  | succ left ih =>
    by_cases he : w.canEnter (s.ahead (Trek.sign ⟨backward, left+1, moved⟩))
    · let u : Stance := { s with cell := s.ahead (Trek.sign ⟨backward, left+1, moved⟩) }
      obtain ⟨ha, ht, hc⟩ := ih u (moved+1)
      rw [conclude_stride_free hm hi (u := u) rfl rfl he]
      have hw : w.stroll (Trek.sign ⟨backward, left+1, moved⟩) (left+1) s =
          ((w.stroll (Trek.sign ⟨backward, left+1, moved⟩) left u).1+1,
            (w.stroll (Trek.sign ⟨backward, left+1, moved⟩) left u).2) := by
        simp [World.stroll, he, u]
      refine ⟨?_, ?_, ?_⟩
      · rw [hw, ha]
        simp only [Except.ok.injEq, Answer.moved.injEq]
        change moved + 1 + (w.stroll (Trek.sign ⟨backward, left+1, moved⟩) left u).1 = _
        omega
      · rw [hw, after_framesFrom, Stance.after_commit, ht]
        rfl
      · simpa using hc
    · have hstride : stride m w s ⟨backward, left+1, moved⟩ =
          ⟨[.remark (.blocked (s.ahead (Trek.sign ⟨backward, left+1, moved⟩)) s.heading)],
            .done (.moved moved)⟩ := stride_blocked rfl he
      rw [hstride, conclude_done (a := .moved moved) rfl]
      simp [Achieves, World.stroll, he]

/-- A stretch that fails before anything has changed. -/
def Stalls (s : Stance) (r : Except Fault Answer × List Effect) : Prop :=
  (∃ f, r.1 = .error f) ∧ s.after r.2 = s ∧ Effect.completions r.2 = 0

theorem stalls_failed (s : Stance) (f : Fault) : Stalls s (conclude m w s ⟨[], .failed f⟩) := by
  rw [conclude_failed (f := f) rfl]
  exact ⟨⟨f, rfl⟩, rfl, rfl⟩

/-- Without a time between its frames a glide does not begin. -/
theorem glide_untimed (hm : m.IsCounted) {f : NumberFault} (hi : m.frameInterval = .error f)
    (s target : Stance) (trek : Option Trek) :
    glide m s target trek = ⟨[], .failed (.number f)⟩ := by
  obtain ⟨n, _, hn⟩ := hm
  unfold glide
  rw [hn, hi]
  rfl

theorem squash_untimed {f : NumberFault} (hi : m.squashInterval = .error f) (s : Stance)
    (taking : Bool) : squash m s taking = ⟨[], .failed (.number f)⟩ := by
  unfold squash
  rw [hi]

theorem stalls_glide (hm : m.IsCounted) {f : NumberFault} (hi : m.frameInterval = .error f)
    (s target : Stance) (trek : Option Trek) :
    Stalls s (conclude m w s (glide m s target trek)) := by
  rw [glide_untimed hm hi]
  exact stalls_failed s _

theorem stalls_squash {f : NumberFault} (hi : m.squashInterval = .error f) (s : Stance)
    (taking : Bool) : Stalls s (conclude m w s (squash m s taking)) := by
  rw [squash_untimed hi]
  exact stalls_failed s _

/-- An action comes to its feat, or to nothing where its frames have no time in between. -/
def IsWhole (m : MotionSettings) (w : World) (s : Stance) (a : Action) : Prop :=
  Achieves s (a.whole m w s) (a.feat w s) ∨
    (∃ f, m.frameInterval = .error f ∨ m.squashInterval = .error f) ∧ Stalls s (a.whole m w s)

theorem achieves_move (hm : m.IsSettling) {interval : Number} (hi : m.frameInterval = .ok interval)
    (s : Stance) (backward : Bool) (steps : Int) :
    Achieves s (whole m w s (.move backward steps)) (feat w s (.move backward steps)) := by
  have h := conclude_stride (w := w) hm hi s ⟨backward, (max 1 steps).toNat, 0⟩
  simpa [whole, begin, feat, Trek.sign] using h

theorem isWhole_move (hm : m.IsSettling) (s : Stance) (backward : Bool) (steps : Int) :
    IsWhole m w s (.move backward steps) := by
  let t : Trek := ⟨backward, (max 1 steps).toNat, 0⟩
  cases hi : m.frameInterval with
  | ok interval => exact .inl (achieves_move hm hi s backward steps)
  | error f =>
    obtain ⟨left, hleft⟩ : ∃ left, (max 1 steps).toNat = left+1 :=
      ⟨(max 1 steps).toNat - 1, by omega⟩
    by_cases he : w.canEnter (s.ahead t.sign)
    · refine .inr ⟨⟨f, .inl hi⟩, ?_⟩
      change Stalls s (conclude m w s (stride m w s t))
      rw [stride_free hleft he]
      exact stalls_glide hm.frames hi s _ _
    · have hfeat : feat w s (.move backward steps) = ⟨.moved 0, s, 0⟩ := by
        have hsign : w.canEnter (s.ahead (if backward then -1 else 1)) = false := by
          simpa [Trek.sign, t] using he
        simp [feat, hleft, World.stroll, hsign]
      refine .inl ?_
      change Achieves s (conclude m w s (stride m w s t)) _
      rw [stride_blocked hleft he, hfeat, conclude_done (a := .moved 0) rfl]
      exact ⟨rfl, rfl, rfl⟩

theorem isWhole_turn (hm : m.IsCounted) (s : Stance) (left : Bool) :
    IsWhole m w s (.turn left) := by
  let t : Stance := { s with heading := s.heading.turned (if left then -1 else 1) }
  have hbegin : whole m w s (.turn left) = conclude m w s (glide m s t none) := rfl
  unfold IsWhole
  rw [hbegin]
  cases hi : m.frameInterval with
  | ok interval =>
    have hl : conclude m w t (landing m none) = (.ok .turned, []) := conclude_done rfl
    rw [conclude_glide hm hi, hl]
    exact .inl (by simp [Achieves, feat, t])
  | error f => exact .inr ⟨⟨f, .inl rfl⟩, stalls_glide hm hi s t none⟩

/-- Handling the cargo, if nothing prevents it. -/
theorem isWhole_squash (hm : m.IsCounted) {s : Stance} {a : Action} (taking : Bool)
    (ha : a.begin m w s = squash m s taking)
    (hf : a.feat w s =
      ⟨.handled true, { s with cargo := .bool taking }, if taking then 0 else 1⟩) :
    IsWhole m w s a := by
  unfold IsWhole whole
  rw [ha, hf]
  cases hi : m.squashInterval with
  | ok interval =>
    rw [conclude_squash hm hi]
    exact .inl (by cases taking <;> simp [Achieves, handling])
  | error f => exact .inr ⟨⟨f, .inr rfl⟩, stalls_squash hi s taking⟩

/-- Not handling it. -/
theorem isWhole_missed {s : Stance} {a : Action} (es : List Effect)
    (ha : a.begin m w s = ⟨es, .done (.handled false)⟩) (hs : s.after es = s)
    (hc : Effect.completions es = 0) (hf : a.feat w s = ⟨.handled false, s, 0⟩) :
    IsWhole m w s a := by
  unfold IsWhole whole
  rw [ha, hf, conclude_done (a := .handled false) rfl]
  exact .inl ⟨rfl, hs, hc⟩

/-- Of all pauses only the one after a unit move can come between an action and its feat: where
another one has no length, the action fails before it has begun. -/
theorem isWhole (hm : m.IsSettling) (s : Stance) (a : Action) : IsWhole m w s a := by
  cases a with
  | move backward steps => exact isWhole_move hm s backward steps
  | turn left => exact isWhole_turn hm.frames s left
  | pickup =>
    by_cases hc : s.isCarrying
    · exact isWhole_missed [] (by simp [begin, hc, Stretch.done]) rfl rfl
        (by simp [feat, hc])
    · by_cases hb : w.isBeside s.cell .pickup
      · exact isWhole_squash hm.frames true (by simp [begin, hc, hb])
          (by simp [feat, hc, hb])
      · exact isWhole_missed [.remark (.nothingToTake s.cell)] (by simp [begin, hc, hb])
          rfl rfl (by simp [feat, hb])
  | dropoff =>
    by_cases hc : s.isCarrying
    · by_cases hb : w.isBeside s.cell .dropoff
      · exact isWhole_squash hm.frames false (by simp [begin, hc, hb])
          (by simp [feat, hc, hb])
      · exact isWhole_missed [.remark (.nowhereToDeliver s.cell)]
          (by simp [begin, hc, hb]) rfl rfl (by simp [feat, hb])
    · exact isWhole_missed [] (by simp [begin, hc, Stretch.done]) rfl rfl
        (by simp [feat, hc])

/-- With pauses that can all be begun an undisturbed action comes to its feat. -/
theorem whole_achieves (hm : m.IsPaced) (s : Stance) (a : Action) :
    Achieves s (a.whole m w s) (a.feat w s) := by
  obtain ⟨interval, hi⟩ := hm.frameInterval
  obtain ⟨seconds, hs⟩ := hm.squashInterval
  rcases isWhole (w := w) hm.isSettling s a with h | ⟨⟨f, hf⟩, _⟩
  · exact h
  · rw [hi, hs] at hf
    rcases hf with hf | hf <;> cases hf

/-- A step whose frames have no time in between is not taken. -/
theorem begin_stuck {s : Stance} {n : Int} {f : NumberFault} (hn : m.frames = .int n)
    (hi : m.frameInterval = .error f) (he : w.canEnter (s.ahead 1)) :
    begin m w s (.move false 1) = ⟨[], .failed (.number f)⟩ := by
  have hs : s.ahead (Trek.sign ⟨false, 1, 0⟩) = s.ahead 1 := rfl
  change stride m w s ⟨false, 1, 0⟩ = _
  unfold stride
  dsimp only
  rw [hs, if_pos he]
  unfold glide
  rw [hn, hi]
  rfl

theorem whole_stuck {s : Stance} {n : Int} {f : NumberFault} (hn : m.frames = .int n)
    (hi : m.frameInterval = .error f) (he : w.canEnter (s.ahead 1)) :
    (whole m w s (.move false 1)).1 = .error (.number f) := by
  unfold whole
  rw [begin_stuck hn hi he, conclude_failed rfl]

/-- A step after which there is no time to pause is taken, and fails then. -/
theorem whole_adrift {s : Stance} (hm : m.IsCounted) {interval seconds : Number}
    (hi : m.frameInterval = .ok interval) (hs : m.settlePause = .ok seconds) {f : NumberFault}
    (hp : seconds.checkPause = .error f) (he : w.canEnter (s.ahead 1)) :
    (whole m w s (.move false 1)).1 = .error (.number f) ∧
      s.after (whole m w s (.move false 1)).2 = { s with cell := s.ahead 1 } := by
  let t : Trek := ⟨false, 1, 0⟩
  let target : Stance := { s with cell := s.ahead 1 }
  have hl : conclude m w target (landing m (some { t with left := 0 })) =
      (.error (.number f), []) := by
    rw [landing, hs]
    exact conclude_stuck rfl hp
  have hwhole : whole m w s (.move false 1) = conclude m w s (stride m w s t) := rfl
  have hstride : stride m w s t = glide m s target (some { t with left := 0 }) :=
    stride_free rfl he
  rw [hwhole, hstride, conclude_glide hm hi, hl]
  refine ⟨rfl, ?_⟩
  rw [after_framesFrom]
  rfl

end Action

end Courier
