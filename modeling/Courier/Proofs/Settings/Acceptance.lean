import Courier.Proofs.Number.Span
import Courier.Settings.Wait

namespace Courier

theorem require_ok {b : Bool} {cause : ValueFault} {u : Unit} (h : require b cause = .ok u) :
    b = true := by
  unfold require at h
  split at h
  · assumption
  · cases h

/-- Numbers of which none is below its bound. -/
structure MotionSettings.IsAccepted (m : MotionSettings) : Prop where
  frames : m.frames.lt (.int 1) = false
  duration : m.duration.lt (.int 0) = false
  minSettle : m.minSettle.lt (.int 0) = false

structure WaitSettings.IsAccepted (t : WaitSettings) : Prop where
  unitSeconds : t.unitSeconds.lt (.int 0) = false
  timeScale : t.timeScale.lt (.int 0) = false

namespace MotionSettings

variable {m : MotionSettings}

theorem isAccepted_of_fields {fields : Json.Members} (h : ofFields fields = .ok m) :
    m.IsAccepted := by
  obtain ⟨_, _, h⟩ := bind_eq_ok h
  obtain ⟨frames, _, h⟩ := bind_eq_ok h
  obtain ⟨_, hframes, h⟩ := bind_eq_ok h
  obtain ⟨duration, _, h⟩ := bind_eq_ok h
  obtain ⟨_, hduration, h⟩ := bind_eq_ok h
  obtain ⟨minSettle, _, h⟩ := bind_eq_ok h
  obtain ⟨_, hminSettle, h⟩ := bind_eq_ok h
  obtain ⟨squashScale, _, h⟩ := bind_eq_ok h
  obtain ⟨_, _, h⟩ := bind_eq_ok h
  cases h
  exact ⟨by simpa using require_ok hframes, by simpa using require_ok hduration,
    by simpa using require_ok hminSettle⟩

theorem frameInterval_ok {x : Number} :
    m.frameInterval = .ok x ↔ ∃ w, m.duration.div m.frames = .ok w ∧ x = .float w := by
  constructor
  · intro h
    obtain ⟨w, hw, h⟩ := bind_eq_ok h
    cases h
    exact ⟨w, hw, rfl⟩
  · rintro ⟨w, hw, rfl⟩
    rw [frameInterval, hw]
    rfl

theorem settlePause_ok {x : Number} :
    m.settlePause = .ok x ↔
      ∃ w, m.duration.div (.int 3) = .ok w ∧ x = m.minSettle.max (.float w) := by
  constructor
  · intro h
    obtain ⟨w, hw, h⟩ := bind_eq_ok h
    cases h
    exact ⟨w, hw, rfl⟩
  · rintro ⟨w, hw, rfl⟩
    rw [settlePause, hw]
    rfl

theorem IsAccepted.frames_nonzero (h : m.IsAccepted) : ¬m.frames.IsZero := by
  rcases Number.isSpan_of_lt_one h.frames with hn | ⟨_, hz⟩
  · rw [hn]
    decide
  · exact hz

/-- Frames follow one another after a span unless a number is NaN, both are infinite or they have no
quotient. -/
theorem IsAccepted.frameInterval_isSpan_iff (h : m.IsAccepted) :
    (∃ x, m.frameInterval = .ok x ∧ x.IsSpan) ↔
      Number.HasQuotient m.duration m.frames ∧ ¬m.duration.IsNan ∧ ¬m.frames.IsNan ∧
        ¬(m.duration.IsInfinite ∧ m.frames.IsInfinite) := by
  have hquotient := Number.div_isOk_iff (x := m.duration) h.frames_nonzero
  have hspan {w : Binary64} (hw : m.duration.div m.frames = .ok w) (hd : ¬m.duration.IsNan)
      (hf : ¬m.frames.IsNan) :=
    Number.quotient_isSpan_iff ((Number.isSpan_of_lt_zero h.duration).resolve_left hd)
      ((Number.isSpan_of_lt_one h.frames).resolve_left hf).1 h.frames_nonzero hw
  constructor
  · rintro ⟨x, hx, hs⟩
    obtain ⟨w, hw, rfl⟩ := frameInterval_ok.mp hx
    have hnan : ¬(m.duration.IsNan ∨ m.frames.IsNan) := by
      intro hn
      rw [Number.quotient_of_nan hn hw] at hs
      cases hs
    obtain ⟨hd, hf⟩ := not_or.mp hnan
    exact ⟨hquotient.mp ⟨w, hw⟩, hd, hf, (hspan hw hd hf).mp hs⟩
  · rintro ⟨hq, hd, hf, hi⟩
    obtain ⟨w, hw⟩ := hquotient.mpr hq
    exact ⟨.float w, frameInterval_ok.mpr ⟨w, hw, rfl⟩, (hspan hw hd hf).mpr hi⟩

/-- The larger of two numbers is a span if the first one is, and the second one is or is NaN. -/
theorem IsAccepted.settlePause_isSpan_iff (h : m.IsAccepted) :
    (∃ x, m.settlePause = .ok x ∧ x.IsSpan) ↔
      Number.HasQuotient m.duration (.int 3) ∧ ¬m.minSettle.IsNan := by
  have hthree : ¬(Number.int 3).IsZero := by decide
  have hquotient := Number.div_isOk_iff (x := m.duration) hthree
  have hmax {w : Binary64} (hw : m.duration.div (.int 3) = .ok w) :
      (m.minSettle.max (.float w)).IsSpan ↔ ¬m.minSettle.IsNan := by
    rcases Number.isSpan_of_lt_zero h.minSettle with hn | hs
    · refine iff_of_false (fun hc => ?_) (fun hc => hc hn)
      rw [hn, Number.max, if_neg (by simp [Number.nan_lt])] at hc
      cases hc
    · refine iff_of_true ?_ hs.not_isNan
      unfold Number.max
      split
      · next hlt =>
        have hd : ¬m.duration.IsNan := by
          intro hd
          rw [Number.quotient_of_nan (.inl hd) hw, Number.lt_nan] at hlt
          cases hlt
        have hduration := (Number.isSpan_of_lt_zero h.duration).resolve_left hd
        exact (Number.quotient_isSpan_iff hduration (by decide) hthree hw).mpr
          (fun hi => Number.not_isInfinite_int hi.2)
      · exact hs
  constructor
  · rintro ⟨x, hx, hs⟩
    obtain ⟨w, hw, rfl⟩ := settlePause_ok.mp hx
    exact ⟨hquotient.mp ⟨w, hw⟩, (hmax hw).mp hs⟩
  · rintro ⟨hq, hn⟩
    obtain ⟨w, hw⟩ := hquotient.mpr hq
    exact ⟨_, settlePause_ok.mpr ⟨w, hw, rfl⟩, (hmax hw).mpr hn⟩

end MotionSettings

namespace WaitSettings

variable {t : WaitSettings}

theorem isAccepted_of_fields {fields : Json.Members} (h : ofFields fields = .ok t) :
    t.IsAccepted := by
  obtain ⟨_, _, h⟩ := bind_eq_ok h
  obtain ⟨unitSeconds, _, h⟩ := bind_eq_ok h
  obtain ⟨_, hunit, h⟩ := bind_eq_ok h
  obtain ⟨timeScale, _, h⟩ := bind_eq_ok h
  obtain ⟨_, hscale, h⟩ := bind_eq_ok h
  cases h
  exact ⟨by simpa using require_ok hunit, by simpa using require_ok hscale⟩

theorem IsAccepted.seconds_isSpan_iff (h : t.IsAccepted) {n : Nat} (hn : 0 < n) {x : Number}
    (hx : t.seconds (.int n) = .ok x) :
    ∃ y, (Number.int n).mul t.unitSeconds = .ok y ∧
      (x.IsSpan ↔ ¬t.unitSeconds.IsNan ∧ ¬t.timeScale.IsNan ∧ ¬(y.IsInfinite ∧ t.timeScale.IsZero) ∧
        ¬(y.IsZero ∧ t.timeScale.IsInfinite)) := by
  obtain ⟨y, hy, hx⟩ := bind_eq_ok hx
  refine ⟨y, hy, ?_⟩
  by_cases hu : t.unitSeconds.IsNan
  · have hnan := Number.product_of_nan (.inl (Number.product_of_nan (.inr hu) hy)) hx
    exact iff_of_false (fun hs => hs.not_isNan hnan) (fun hc => hc.1 hu)
  by_cases ht : t.timeScale.IsNan
  · have hnan := Number.product_of_nan (.inr ht) hx
    exact iff_of_false (fun hs => hs.not_isNan hnan) (fun hc => hc.2.1 ht)
  have hn : (Number.int n).IsSpan := Number.isSpan_int.mpr (by omega)
  have hunit := (Number.isSpan_of_lt_zero h.unitSeconds).resolve_left hu
  have hscale := (Number.isSpan_of_lt_zero h.timeScale).resolve_left ht
  have hys : y.IsSpan := by
    refine (Number.product_isSpan_iff hn hunit hy).mpr ⟨fun hc => ?_, fun hc => ?_⟩
    · exact Number.not_isInfinite_int hc.1
    · have hzero := Number.isZero_int.mp hc.1
      omega
  rw [Number.product_isSpan_iff hys hscale hx]
  exact ⟨fun hc => ⟨hu, ht, hc⟩, fun hc => hc.2.2⟩

end WaitSettings

/-- Accepted settings give spans between frames and moves and for waits as long as no NaN is used,
no two infinities are divided, no infinity meets a zero and no integer exceeds binary64. -/
theorem accepted_spans_iff {motion wait : Json.Members} {m : MotionSettings} {t : WaitSettings}
    (hm : MotionSettings.ofFields motion = .ok m) (ht : WaitSettings.ofFields wait = .ok t) :
    ((∃ x, m.frameInterval = .ok x ∧ x.IsSpan) ↔
        Number.HasQuotient m.duration m.frames ∧ ¬m.duration.IsNan ∧ ¬m.frames.IsNan ∧
          ¬(m.duration.IsInfinite ∧ m.frames.IsInfinite)) ∧
      ((∃ x, m.settlePause = .ok x ∧ x.IsSpan) ↔
        Number.HasQuotient m.duration (.int 3) ∧ ¬m.minSettle.IsNan) ∧
      ∀ n : Nat, 0 < n → ∀ x, t.seconds (.int n) = .ok x →
        ∃ y, (Number.int n).mul t.unitSeconds = .ok y ∧
          (x.IsSpan ↔ ¬t.unitSeconds.IsNan ∧ ¬t.timeScale.IsNan ∧
            ¬(y.IsInfinite ∧ t.timeScale.IsZero) ∧ ¬(y.IsZero ∧ t.timeScale.IsInfinite)) := by
  have hmotion := MotionSettings.isAccepted_of_fields hm
  have hwait := WaitSettings.isAccepted_of_fields ht
  exact ⟨hmotion.frameInterval_isSpan_iff, hmotion.settlePause_isSpan_iff,
    fun n hn x hx => hwait.seconds_isSpan_iff hn hx⟩

/-- Endless moves of endless frames, and endless waits that take no time. -/
def endless : MotionSettings := ⟨.float (.infinite false), .float (.infinite false), .int 0, .int 1⟩

def endlessFields : Json.Members :=
  [("frames", .float (.infinite false)), ("duration", .float (.infinite false)),
    ("min_settle", .int 0), ("squash_min_scale", .int 1)]

def skipped : WaitSettings := ⟨.float (.infinite false), .int 0⟩

def skippedFields : Json.Members :=
  [("wait_unit_seconds", .float (.infinite false)), ("time_scale", .int 0)]

theorem accepted_spans_endless :
    MotionSettings.ofFields endlessFields = .ok endless ∧
      WaitSettings.ofFields skippedFields = .ok skipped ∧
      (¬∃ x, endless.frameInterval = .ok x ∧ x.IsSpan) ∧
      (∃ x, endless.settlePause = .ok x ∧ x.IsSpan) ∧
      ∃ x, skipped.seconds (.int 1) = .ok x ∧ ¬x.IsSpan := by
  have hm : MotionSettings.ofFields endlessFields = .ok endless := rfl
  have ht : WaitSettings.ofFields skippedFields = .ok skipped := rfl
  have hinfinite : endless.duration.IsInfinite := Number.isInfinite_infinite
  have hthree : Number.HasQuotient endless.duration (.int 3) := by
    refine ⟨nofun, fun i hi => ?_⟩
    cases hi
    exact Nat.lt_trans (by decide) (Binary64.pow_lt_overflow (by decide : 2 ≤ 1023))
  have hproduct :
      (Number.int (1 : Nat)).mul skipped.unitSeconds = .ok (.float (.infinite false)) := by
    decide +kernel
  have hx : skipped.seconds (.int (1 : Nat)) = .ok (.float .nan) := by decide +kernel
  obtain ⟨hframes, hsettle, hseconds⟩ := accepted_spans_iff hm ht
  refine ⟨hm, ht, ?_, hsettle.mpr ⟨hthree, by decide⟩, .float .nan, hx, ?_⟩
  · rw [hframes]
    exact fun h => h.2.2.2 ⟨hinfinite, hinfinite⟩
  · obtain ⟨y, hy, hiff⟩ := hseconds 1 Nat.one_pos _ hx
    cases hproduct.symm.trans hy
    exact fun hs => (hiff.mp hs).2.2.1 ⟨Number.isInfinite_infinite, rfl⟩

/-- A NaN among the settings passes the checks and becomes a pause that is no span. -/
theorem accepted_not_span :
    ∃ motion m wait t, MotionSettings.ofFields motion = .ok m ∧ WaitSettings.ofFields wait = .ok t ∧
      (∃ x, m.frameInterval = .ok x ∧ ¬x.IsSpan) ∧ (∃ x, m.settlePause = .ok x ∧ ¬x.IsSpan) ∧
      ∃ x, t.seconds (.int 1) = .ok x ∧ ¬x.IsSpan := by
  refine ⟨[("frames", .int 1), ("duration", .float .nan), ("min_settle", .float .nan),
      ("squash_min_scale", .int 1)], ⟨.int 1, .float .nan, .float .nan, .int 1⟩,
    [("wait_unit_seconds", .int 1), ("time_scale", .float .nan)], ⟨.int 1, .float .nan⟩, rfl, rfl,
    ⟨.float .nan, ?_, by decide⟩, ⟨.float .nan, ?_, by decide⟩, .float .nan, ?_, by decide⟩
  all_goals decide +kernel

end Courier
