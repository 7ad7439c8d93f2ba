import Courier.Proofs.Engine.Conclusion
import Courier.Proofs.Number.Order

namespace Courier

/-- A pause of some seconds that ends by itself: there is a time to pause until, and it is not
infinitely far off. -/
structure Number.Passes (seconds : Number) : Prop where
  timed : seconds.checkPause = .ok ()
  finite : seconds ≠ .float (.infinite false)

/-- A whole number of frames, at least one. -/
def MotionSettings.IsCounted (m : MotionSettings) : Prop := ∃ n : Nat, 0 < n ∧ m.frames = .int n

/-- Settings with a whole number of frames under which there is a time to pause until after a unit
move, if the move gets that far. Pauses may be infinite. -/
structure MotionSettings.IsSettling (m : MotionSettings) : Prop where
  frames : m.IsCounted
  settlePause : ∀ interval, m.frameInterval = .ok interval →
    ∃ s, m.settlePause = .ok s ∧ s.checkPause = .ok ()

/-- Settings with a whole number of frames and pauses that can all be begun. They may be infinite,
so that an action that nothing cancels may pause for ever. -/
structure MotionSettings.IsPaced (m : MotionSettings) : Prop where
  frames : m.IsCounted
  frameInterval : ∃ s, m.frameInterval = .ok s
  settlePause : ∃ s, m.settlePause = .ok s ∧ s.checkPause = .ok ()
  squashInterval : ∃ s, m.squashInterval = .ok s

/-- Settings with a whole number of frames under which the pauses of a move end. -/
structure MotionSettings.IsStriding (m : MotionSettings) : Prop where
  frames : m.IsCounted
  frameInterval : ∃ s, m.frameInterval = .ok s ∧ s.Passes
  settlePause : ∃ s, m.settlePause = .ok s ∧ s.Passes

/-- Settings with a whole number of frames and pauses that all end. -/
structure MotionSettings.IsTimely (m : MotionSettings) : Prop extends m.IsStriding where
  squashInterval : ∃ s, m.squashInterval = .ok s ∧ s.Passes

/-- Waits of some units that end. -/
def WaitSettings.IsTimely (t : WaitSettings) (units : Nat) : Prop :=
  ∃ s, t.seconds (.int units) = .ok s ∧ s.Passes

namespace Number

theorem checkPause_float (x : Binary64) : (Number.float x).checkPause = .ok () := by
  unfold checkPause
  split <;> rfl

theorem passes_float {x : Binary64} (hx : x ≠ .infinite false) : (Number.float x).Passes :=
  ⟨checkPause_float x, fun h => hx (Number.float.inj h)⟩

theorem passes_of_isFinite {x : Binary64} (hx : x.isFinite) : (Number.float x).Passes := by
  refine passes_float ?_
  rintro rfl
  cases hx

/-- A binary64 number, divided by a positive integer that is no larger than such numbers get. -/
theorem div_float_int {x : Binary64} {n k : Nat} (hn : 0 < n) (hk : k ≤ 1023) (hlt : n < 2^k) :
    ∃ y, div (.float x) (.int n) = .ok y ∧ (x.isFinite → y.isFinite) := by
  have hf : (Binary64.ofInt n).isFinite := Binary64.ofInt_isFinite hk hlt
  refine ⟨x.div (.ofInt n), ?_, Binary64.isFinite_div_ofInt (by omega) hf⟩
  rw [div_float, toBinary64_of_finite rfl hf]
  rfl

end Number

namespace MotionSettings

theorem IsPaced.isSettling {m : MotionSettings} (h : m.IsPaced) : m.IsSettling :=
  ⟨h.frames, fun _ _ => h.settlePause⟩

theorem IsStriding.isSettling {m : MotionSettings} (h : m.IsStriding) : m.IsSettling where
  frames := h.frames
  settlePause _ _ := by
    obtain ⟨s, hs, hp⟩ := h.settlePause
    exact ⟨s, hs, hp.timed⟩

theorem IsTimely.isPaced {m : MotionSettings} (h : m.IsTimely) : m.IsPaced where
  frames := h.frames
  frameInterval := h.frameInterval.imp fun _ hs => hs.1
  settlePause := h.settlePause.imp fun _ hs => ⟨hs.1, hs.2.timed⟩
  squashInterval := h.squashInterval.imp fun _ hs => hs.1

theorem frameInterval_isFloat {m : MotionSettings} {s : Number} (h : m.frameInterval = .ok s) :
    ∃ x, s = .float x := by
  obtain ⟨x, _, hx⟩ := bind_eq_ok h
  cases hx
  exact ⟨x, rfl⟩

theorem squashInterval_isFloat {m : MotionSettings} {s : Number} (h : m.squashInterval = .ok s) :
    ∃ x, s = .float x := by
  obtain ⟨x, _, hx⟩ := bind_eq_ok h
  cases hx
  exact ⟨x, rfl⟩

theorem squashFrames_int {m : MotionSettings} {n : Nat} (h : m.frames = .int n) :
    m.squashFrames = .int (Nat.max 4 (n / 2)) := by
  have hc : Number.lt (.int 4) (.int ((n : Int) / 2)) = decide ((4 : Int) < (n : Int) / 2) := by
    simp only [Number.lt, Number.compare?]
    rcases Int.lt_trichotomy 4 ((n : Int) / 2) with hlt | heq | hgt
    · simp [compare, compareOfLessAndEq, hlt]
    · simp [compare, compareOfLessAndEq, ← heq]
    · have hn : ¬(4 : Int) < (n : Int) / 2 := by omega
      have hne : ¬(4 : Int) = (n : Int) / 2 := by omega
      simp [compare, compareOfLessAndEq, hn, hne]
  unfold squashFrames
  rw [h]
  simp only [Number.half, Number.max, hc]
  by_cases hlt : (4 : Int) < (n : Int) / 2
  · have hm : Nat.max 4 (n / 2) = n / 2 := Nat.max_eq_right (by omega)
    simp only [hlt, decide_true, if_true, hm]
    rfl
  · have hm : Nat.max 4 (n / 2) = 4 := Nat.max_eq_left (by omega)
    simp only [hlt, decide_false, hm]
    rfl

theorem squashFrames_lt {n k : Nat} (hlt : n < 2^k) : Nat.max 4 (n / 2) < 2^(max 3 k) := by
  have h3 : 2^3 ≤ 2^(max 3 k) := Nat.pow_le_pow_right (by decide) (Nat.le_max_left _ _)
  have hk : 2^k ≤ 2^(max 3 k) := Nat.pow_le_pow_right (by decide) (Nat.le_max_right _ _)
  exact Nat.max_lt.mpr ⟨by omega, by omega⟩

section Floats

variable {m : MotionSettings} {n k : Nat} {x y : Binary64}

theorem frameInterval_of_float (hn : 0 < n) (hk : k ≤ 1023) (hlt : n < 2^k)
    (hf : m.frames = .int n) (hd : m.duration = .float x) :
    ∃ z, m.frameInterval = .ok (.float z) ∧ (x.isFinite → z.isFinite) := by
  obtain ⟨z, hz, hfinite⟩ := Number.div_float_int hn hk hlt
  refine ⟨z, ?_, hfinite⟩
  rw [frameInterval, hd, hf, hz]
  rfl

theorem squashInterval_of_float (hk : k ≤ 1023) (hlt : n < 2^k) (hf : m.frames = .int n)
    (hd : m.duration = .float x) :
    ∃ z, m.squashInterval = .ok (.float z) ∧ (x.isFinite → z.isFinite) := by
  have hpos : 0 < Nat.max 4 (n / 2) := Nat.lt_of_lt_of_le (by decide) (Nat.le_max_left _ _)
  obtain ⟨z, hz, hfinite⟩ := Number.div_float_int hpos (by omega) (squashFrames_lt hlt)
  refine ⟨z, ?_, hfinite⟩
  rw [squashInterval, hd, squashFrames_int hf, hz]
  rfl

theorem settlePause_of_floats (hd : m.duration = .float x) (hs : m.minSettle = .float y) :
    ∃ z, m.settlePause = .ok (.float z) ∧ (x.isFinite → y.isFinite → z.isFinite) := by
  obtain ⟨z, hz, hfinite⟩ := Number.div_float_int (x := x) (n := 3) (k := 2) (by decide)
    (by decide) (by decide)
  rw [settlePause, hd, hs, show Number.int 3 = .int (3 : Nat) from rfl, hz]
  by_cases hlt : Number.lt (.float y) (.float z)
  · refine ⟨z, ?_, fun hx _ => hfinite hx⟩
    simp [Number.max, hlt]
  · refine ⟨y, ?_, fun _ hy => hy⟩
    simp [Number.max, hlt]

/-- Binary64 numbers leave time to pause after a move, however many frames it has. -/
theorem isSettling_of_floats (hf : m.IsCounted) (hd : m.duration = .float x)
    (hs : m.minSettle = .float y) : m.IsSettling where
  frames := hf
  settlePause _ _ := by
    obtain ⟨z, hz, _⟩ := settlePause_of_floats hd hs
    exact ⟨_, hz, Number.checkPause_float z⟩

/-- Pauses computed from binary64 numbers can be begun, with any number of frames that is no larger
than such numbers get. -/
theorem isPaced_of_floats (hn : 0 < n) (hk : k ≤ 1023) (hlt : n < 2^k) (hf : m.frames = .int n)
    (hd : m.duration = .float x) (hs : m.minSettle = .float y) : m.IsPaced := by
  obtain ⟨a, ha, _⟩ := frameInterval_of_float hn hk hlt hf hd
  obtain ⟨b, hb, _⟩ := settlePause_of_floats hd hs
  obtain ⟨c, hc, _⟩ := squashInterval_of_float hk hlt hf hd
  exact ⟨⟨n, hn, hf⟩, ⟨_, ha⟩, ⟨_, hb, Number.checkPause_float b⟩, ⟨_, hc⟩⟩

/-- They end if the numbers are finite. -/
theorem isTimely_of_floats (hn : 0 < n) (hk : k ≤ 1023) (hlt : n < 2^k) (hf : m.frames = .int n)
    (hd : m.duration = .float x) (hx : x.isFinite) (hs : m.minSettle = .float y)
    (hy : y.isFinite) : m.IsTimely := by
  obtain ⟨a, ha, hafinite⟩ := frameInterval_of_float hn hk hlt hf hd
  obtain ⟨b, hb, hbfinite⟩ := settlePause_of_floats hd hs
  obtain ⟨c, hc, hcfinite⟩ := squashInterval_of_float hk hlt hf hd
  exact ⟨⟨⟨n, hn, hf⟩, ⟨_, ha, Number.passes_of_isFinite (hafinite hx)⟩,
    ⟨_, hb, Number.passes_of_isFinite (hbfinite hx hy)⟩⟩,
    ⟨_, hc, Number.passes_of_isFinite (hcfinite hx)⟩⟩

end Floats

/-- A whole number of frames that is no binary64 number leaves no time in between. -/
theorem frameInterval_large {m : MotionSettings} {n : Int} {x : Binary64}
    (hn : Number.toBinary64 (.int n) = .error .outOfRange) (hf : m.frames = .int n)
    (hd : m.duration = .float x) : m.frameInterval = .error .outOfRange := by
  unfold frameInterval
  rw [hd, hf, Number.div_float, hn]
  rfl

theorem standard_isTimely : standard.IsTimely :=
  isTimely_of_floats (n := 20) (k := 5) (by decide) (by decide) (by decide) rfl rfl
    (by decide +kernel) rfl (by decide +kernel)

end MotionSettings

namespace WaitSettings

/-- A wait with binary64 units ends if its seconds do not get infinite. -/
theorem isTimely_of_float {t : WaitSettings} {n : Nat} {x y : Binary64}
    (hn : (Binary64.ofInt n).isFinite) (hu : t.unitSeconds = .float x)
    (hs : t.timeScale.toBinary64 = .ok y)
    (hfinite : ((Binary64.ofInt n).mul x).mul y ≠ .infinite false) : t.IsTimely n := by
  have hz := Number.toBinary64_of_finite rfl hn
  have h : t.seconds (.int n) = .ok (.float (((Binary64.ofInt n).mul x).mul y)) := by
    unfold seconds
    rw [hu, Number.mul, Number.float_promote, hz]
    change Number.mul (.float ((Binary64.ofInt n).mul x)) t.timeScale = _
    rw [Number.mul, Number.promote_float, hs]
    rfl
  exact ⟨_, h, Number.passes_float hfinite⟩

/-- So one second per unit leaves an end to all waits no longer than binary64 numbers get. -/
theorem standard_isTimely {n k : Nat} (hk : k ≤ 1023) (hlt : n < 2^k) : standard.IsTimely n := by
  have hn : (Binary64.ofInt n).isFinite := Binary64.ofInt_isFinite hk hlt
  have hone : ((Binary64.ofInt n).mul (.ofNat 1)).mul (.ofNat 1) = Binary64.ofInt n := by
    rw [Binary64.ofNat, Nat.cast_one, Binary64.mul_ofInt_one, Binary64.mul_ofInt_one]
  refine isTimely_of_float hn rfl rfl ?_
  rw [hone]
  intro h
  rw [h] at hn
  cases hn

end WaitSettings

end Courier
