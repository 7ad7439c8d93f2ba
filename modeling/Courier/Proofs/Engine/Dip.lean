import Mathlib.Order.Interval.Set.Basic
import Courier.Proofs.Engine.Sleeping
import Courier.Proofs.Pose.Glide
import Courier.Proofs.Run.Exposure

namespace Courier

/-- Heights `1` to `n` that sink to the lowest one, number `half`, and then rise to one. -/
structure Dips (low : ℚ) (half n : Nat) (height : Nat → ℚ) : Prop where
  below : height 1 < 1
  sinks : StrictAntiOn height (Set.Icc 1 half)
  bottom : height half = low
  rises : StrictMonoOn height (Set.Icc half n)
  top : height n = 1
  range : ∀ k ∈ Set.Icc 1 n, low ≤ height k ∧ height k ≤ 1

/-- A finite number in exact arithmetic. -/
def Number.value : Number → ℚ
  | .int i => i
  | .float (.finite s m q _) => Binary64.units s m q / Binary64.unit
  | .float _ => 0

namespace Action

section Heights

variable {s : Stance} {low : ℚ} {k n : Nat}

theorem squashFrame_sinking (hk : k ≤ n/2) :
    ((squashFrame s k n).pose low).scale = 1 - (1-low)*((k : ℚ)/(n/2 : Nat)) := by
  unfold squashFrame
  rw [if_pos hk]
  simp only [Frame.pose, Scalar.sub, Scalar.mul, Scalar.ofInt, Scalar.ratio, Int.cast_one]

theorem squashFrame_rising (hk : n/2 < k) :
    ((squashFrame s k n).pose low).scale =
      low + (1-low)*(((k - n/2 : Nat) : ℚ)/(n - n/2 : Nat)) := by
  unfold squashFrame
  rw [if_neg (not_le.mpr hk)]
  simp only [Frame.pose, Scalar.add, Scalar.sub, Scalar.mul, Scalar.ofInt, Scalar.ratio,
    Int.cast_one]

/-- A squash changes nothing but the height. -/
theorem squashFrame_pose (s : Stance) (k n : Nat) :
    (squashFrame s k n).pose low =
      { s.pose ℚ with scale := ((squashFrame s k n).pose low).scale } := by
  unfold squashFrame
  split <;> rfl

theorem fraction_lt {i j d : Nat} (hd : 0 < d) (h : i < j) : (i : ℚ)/d < j/d :=
  div_lt_div_of_pos_right (by exact_mod_cast h) (by exact_mod_cast hd)

theorem fraction_pos {j d : Nat} (hd : 0 < d) (hj : 0 < j) : 0 < (j : ℚ)/d :=
  div_pos (by exact_mod_cast hj) (by exact_mod_cast hd)

/-- The heights of a squash with at least two frames. -/
theorem squash_heights (s : Stance) (h1 : low < 1) (hn : 2 ≤ n) :
    Dips low (n/2) n (fun k => ((squashFrame s k n).pose low).scale) := by
  have hhalf : 0 < n/2 := by omega
  have hrest : 0 < n - n/2 := by omega
  have hdepth : 0 < 1 - low := by linarith
  have hone : ((n/2 : Nat) : ℚ)/(n/2 : Nat) = 1 := div_self (by exact_mod_cast hhalf.ne')
  have hbottom : ((squashFrame s (n/2) n).pose low).scale = low := by
    rw [squashFrame_sinking le_rfl, hone]
    ring
  have hsinks : StrictAntiOn (fun k => ((squashFrame s k n).pose low).scale)
      (Set.Icc 1 (n/2)) := by
    intro i hi j hj hij
    have hlt := mul_lt_mul_of_pos_left (fraction_lt hhalf hij) hdepth
    dsimp only
    rw [squashFrame_sinking hi.2, squashFrame_sinking hj.2]
    linarith
  have hrises : StrictMonoOn (fun k => ((squashFrame s k n).pose low).scale)
      (Set.Icc (n/2) n) := by
    intro i hi j hj hij
    have hjlt : n/2 < j := lt_of_le_of_lt hi.1 hij
    dsimp only
    rw [squashFrame_rising hjlt]
    rcases Nat.eq_or_lt_of_le hi.1 with heq | hlt
    · have hpos := mul_pos hdepth (fraction_pos hrest (Nat.sub_pos_of_lt hjlt))
      rw [← heq, hbottom]
      linarith
    · have hsub : i - n/2 < j - n/2 := by omega
      have hlt' := mul_lt_mul_of_pos_left (fraction_lt hrest hsub) hdepth
      rw [squashFrame_rising hlt]
      linarith
  have htop : ((squashFrame s n n).pose low).scale = 1 := by
    have hone' : ((n - n/2 : Nat) : ℚ)/(n - n/2 : Nat) = 1 :=
      div_self (by exact_mod_cast hrest.ne')
    rw [squashFrame_rising (by omega), hone']
    ring
  have hbelow : ((squashFrame s 1 n).pose low).scale < 1 := by
    have hpos := mul_pos hdepth (fraction_pos hhalf Nat.one_pos)
    rw [squashFrame_sinking (by omega)]
    linarith
  refine ⟨hbelow, hsinks, hbottom, hrises, htop, fun k hk => ?_⟩
  rcases Nat.le_total k (n/2) with hle | hle
  · have hdown := hsinks.antitoneOn ⟨hk.1, hle⟩ ⟨hhalf, le_rfl⟩ hle
    have hfirst := hsinks.antitoneOn ⟨le_rfl, hhalf⟩ ⟨hk.1, hle⟩ hk.1
    exact ⟨hbottom.symm.le.trans hdown, hfirst.trans hbelow.le⟩
  · have hup := hrises.monotoneOn ⟨le_rfl, by omega⟩ ⟨hle, hk.2⟩ hle
    have hlast := hrises.monotoneOn ⟨hle, hk.2⟩ ⟨by omega, le_rfl⟩ hk.2
    exact ⟨hbottom.symm.le.trans hup, hlast.trans htop.le⟩

end Heights

section Squash

variable {m : MotionSettings} {w : World} {s : Stance}

theorem sleeps_after_shown {f : Frame} {seconds : Number} {a : Activity}
    (hp : seconds.checkPause = .ok ()) :
    sleeps m w s (.after [.publish f] (.pause (.ok seconds) a)) =
      seconds :: sleeps m w s (resume m w s a) :=
  sleeps_pause (x := .after [.publish f] (.pause (.ok seconds) a)) rfl hp

theorem sleeps_squashing {seconds : Number} (hs : m.squashInterval = .ok seconds)
    (s origin : Stance) (taking : Bool) {k : Nat} (hk : k ≤ squashLength m) :
    sleeps m w s (resume m w s (.squashing origin k taking)) =
      List.replicate (squashLength m - k) seconds := by
  obtain ⟨x, rfl⟩ := MotionSettings.squashInterval_isFloat hs
  induction hd : squashLength m - k generalizing k with
  | zero =>
    have hkn : ¬k < squashLength m := by omega
    refine sleeps_done (a := .handled true) ?_
    simp only [resume, hkn, if_false]
  | succ d ih =>
    have hlt : k < squashLength m := by omega
    rw [resume_squashing hs hlt, sleeps_after_shown (Number.checkPause_float x),
      ih (by omega) (by omega)]
    rfl

theorem sleeps_squash (hm : m.IsCounted) {seconds : Number}
    (hs : m.squashInterval = .ok seconds) (s : Stance) (taking : Bool) :
    sleeps m w s (squash m s taking) = List.replicate (squashLength m) seconds := by
  obtain ⟨x, rfl⟩ := MotionSettings.squashInterval_isFloat hs
  have hl := squashLength_pos hm
  have hrest := sleeps_squashing (w := w) hs s s taking hl
  rw [squash_timed hm hs, sleeps_pause (a := .squashing s 1 taking) rfl (Number.checkPause_float x)]
  rw [← Nat.sub_add_cancel hl, List.replicate_succ]
  exact congrArg _ hrest

theorem begin_of_handled {a : Action} (ha : (a.feat w s).answer = .handled true) :
    ∃ taking, a.begin m w s = squash m s taking ∧
      (a.feat w s).stance = { s with cargo := .bool taking } := by
  cases a with
  | move backward steps => cases ha
  | turn left => cases ha
  | pickup =>
    unfold feat at ha ⊢
    dsimp only at ha ⊢
    split at ha
    · next h =>
      rw [if_pos h]
      rw [Bool.and_eq_true, Bool.not_eq_true'] at h
      refine ⟨true, ?_, rfl⟩
      simp only [begin, h.1, h.2, if_true, Bool.false_eq_true, if_false]
    · cases ha
  | dropoff =>
    unfold feat at ha ⊢
    dsimp only at ha ⊢
    split at ha
    · next h =>
      rw [if_pos h]
      rw [Bool.and_eq_true] at h
      refine ⟨false, ?_, rfl⟩
      simp only [begin, h.1, h.2, if_true]
    · cases ha

/-- The squash of an agent that takes or delivers the cargo, when nothing cancels it, in exact
arithmetic with any lowest height below one. It has two halves, neither of them empty; its frames
sink to the lowest height and rise again, and change nothing else of the pose; the last one is
followed by the agent at rest, with full height again, and by the new stance. There are as many
sleeps as frames, which the clock goes through, all of them a like part of the duration, which they
add up to if that part is not rounded. If the part is out of range, nothing is shown. -/
theorem squash_dips {a : Action} {frames : Nat} {low : ℚ} (hf : m.frames = .int frames)
    (hpos : 0 < frames) (ha : (a.feat w s).answer = .handled true) (h1 : low < 1) :
    let n := Nat.max 4 (frames/2)
    let height (k : Nat) : ℚ := ((squashFrame s k n).pose low).scale
    (0 < n/2 ∧ 0 < n - n/2) ∧ Dips low (n/2) n height ∧
      (∀ k, (squashFrame s k n).pose low = { s.pose ℚ with scale := height k }) ∧
      ((Frame.still s).pose low = s.pose ℚ ∧ ((Frame.still s).pose low).scale = 1) ∧
      (∀ x, m.duration.div (.int n) = .ok x →
        Effect.frames (a.whole m w s).2 =
          (List.range' 1 n).map (squashFrame s · n) ++ [.still s, .still (a.feat w s).stance] ∧
        sleeps m w s (a.begin m w s) = List.replicate n (.float x) ∧
        (∀ p : Performance, p.IsClear → p.engine.settings = m → p.engine.world = w →
          p.engine.committed = s →
            (p.perform a).2.watch = p.watch.sleepAll (List.replicate n (.float x))) ∧
        ((Number.float x).value = m.duration.value/n →
          ((sleeps m w s (a.begin m w s)).map Number.value).sum = m.duration.value)) ∧
      ∀ f, m.duration.div (.int n) = .error f → a.whole m w s = (.error (.number f), []) := by
  intro n height
  have hn : 4 ≤ n := Nat.le_max_left 4 (frames/2)
  have hm : m.IsCounted := ⟨frames, hpos, hf⟩
  have hframes : m.squashFrames = .int n := MotionSettings.squashFrames_int hf
  have hlength : squashLength m = n := squashLength_eq hf
  obtain ⟨taking, hbegin, hstance⟩ := begin_of_handled (m := m) ha
  refine ⟨by omega, squash_heights s h1 (by omega), fun k => squashFrame_pose s k n,
    ⟨rfl, by simp [Frame.pose, Stance.pose, Scalar.ofInt]⟩, ?_, ?_⟩
  · intro x hx
    have hi : m.squashInterval = .ok (.float x) := by
      rw [MotionSettings.squashInterval, hframes, hx]
      rfl
    have hsleeps : sleeps m w s (a.begin m w s) = List.replicate n (.float x) := by
      rw [hbegin, sleeps_squash hm hi, hlength]
    refine ⟨?_, hsleeps, ?_, fun hvalue => ?_⟩
    · have hhandling : Effect.frames (handling s s taking) =
          [.still s, .still { s with cargo := .bool taking }] := by
        cases taking <;> rfl
      rw [whole, hbegin, conclude_squash hm hi, hlength, hstance]
      simp [frames_framesFrom, hhandling]
    · rintro p hp rfl rfl rfl
      rw [p.perform_watch hp, hsleeps]
    · have hne : (n : ℚ) ≠ 0 := by
        have : n ≠ 0 := by omega
        exact_mod_cast this
      rw [hsleeps, List.map_replicate, List.sum_replicate, hvalue, nsmul_eq_mul]
      field_simp
  · intro f hx
    have hi : m.squashInterval = .error f := by
      rw [MotionSettings.squashInterval, hframes, hx]
      rfl
    rw [whole, hbegin, squash_untimed hi, conclude_failed (f := .number f) rfl]

/-- An agent beside a pickup cell squashes in four frames, at intervals of half a second. -/
theorem squash_dips_pickup :
    let m : MotionSettings := { MotionSettings.standard with frames := .int 3, duration := .int 2 }
    let w : World :=
      .ofFn 2 1 (fun i _ => if i = 0 then .empty else .pickup) [] (by decide) (by decide)
    let s : Stance := ⟨(0, 0), .east, .bool false⟩
    let height (k : Nat) : ℚ := ((squashFrame s k 4).pose (11/20)).scale
    Dips (11/20) 2 4 height ∧
      (Effect.frames (Action.pickup.whole m w s).2).length = 6 ∧
      ((sleeps m w s (Action.pickup.begin m w s)).map Number.value).sum = 2 := by
  intro m w s height
  have ha : (Action.pickup.feat w s).answer = .handled true := by decide +kernel
  obtain ⟨_, hdips, _, _, hok, _⟩ :=
    squash_dips (m := m) rfl (by decide : 0 < 3) ha (by norm_num : (11/20 : ℚ) < 1)
  have hx : m.duration.div (.int 4) = .ok (Binary64.ofRatio 1 2) := by decide +kernel
  obtain ⟨hframes, _, _, hsum⟩ := hok _ hx
  have hvalue : (Number.float (.ofRatio 1 2)).value = m.duration.value/4 := by decide +kernel
  exact ⟨hdips, by rw [hframes]; rfl, hsum hvalue⟩

end Squash

end Action

end Courier
