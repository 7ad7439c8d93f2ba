import Courier.Cli.Execute
import Courier.Proofs.Number.Rounding

namespace Courier

open Json (Value)

/-- A numeral that stands for no number, or a number that cannot be written or has no integer
part. -/
def NumberFault.isOfValue : NumberFault → Bool
  | .nanToInteger | .notIntegerText _ | .notNumberText _ | .tooManyDigits _ | .tooLongToWrite => true
  | _ => false

/-- A fault of the value itself. -/
def Fault.isOfValue : Fault → Bool
  | .value _ => true
  | .number cause => cause.isOfValue
  | _ => false

theorem Fault.isReported_of_value {f : Fault} (h : f.isOfValue) : Cli.isReported f := by
  cases f with
  | value cause => rfl
  | number cause => cases cause <;> first | rfl | cases h
  | _ => cases h

/-- A fault of a value ends any command with a complaint of the same wording. -/
theorem Fault.ending_of_value {f : Fault} (h : f.isOfValue) (command : String) :
    (Cli.Failure.fault f).ending command =
      .refused (Cli.complaint (some command) f.message) := by
  rw [Cli.Failure.ending, if_pos (isReported_of_value h)]

namespace Number

/-- A text reads as an integer, or it is none or too long. -/
theorem readInt_isOfValue {s : String} {e : NumberFault} (h : readInt s = .error e) :
    e.isOfValue := by
  unfold readInt at h
  dsimp only at h
  split at h
  · split at h
    · cases h
      rfl
    · split at h
      · cases h
        rfl
      · split at h
        · cases h
        · cases h
          rfl
  · cases h
    rfl

theorem readFloat_isOfValue {s : String} {e : NumberFault} (h : readFloat s = .error e) :
    e.isOfValue := by
  unfold readFloat at h
  dsimp only at h
  split at h
  · cases h
  · cases h
    rfl

end Number

namespace Settings

/-- A value comes out, or a fault of the value with which any command complains. -/
def IsAnswered {α : Type} (r : Except Fault α) : Prop :=
  ∀ f, r = .error f → f.isOfValue ∧ ∀ command, (Cli.Failure.fault f).ending command =
    .refused (Cli.complaint (some command) f.message)

variable {key : String} {v : Value}

theorem isAnswered_ok {α : Type} (a : α) : IsAnswered (.ok a) := by
  intro f hf
  cases hf

theorem isAnswered_error {α : Type} {f : Fault} :
    IsAnswered (.error f : Except Fault α) ↔ f.isOfValue := by
  constructor
  · intro h
    exact (h f rfl).1
  · intro h g hg
    cases hg
    exact ⟨h, f.ending_of_value h⟩

theorem isAnswered_lift {α : Type} {r : Except NumberFault α} :
    IsAnswered (liftM r : Except Fault α) ↔ ∀ e, r = .error e → e.isOfValue := by
  cases r with
  | ok a =>
    refine ⟨fun _ e he => ?_, fun _ => isAnswered_ok a⟩
    cases he
  | error e =>
    refine isAnswered_error.trans ⟨fun h d hd => ?_, fun h => h e rfl⟩
    cases hd
    exact h

theorem toBool_isAnswered (key : String) (v : Value) : IsAnswered (toBool key v) := by
  cases v with
  | bool b => exact isAnswered_ok b
  | text s =>
    unfold toBool
    dsimp only
    split
    · exact isAnswered_ok _
    · exact isAnswered_error.mpr rfl
  | _ => exact isAnswered_error.mpr rfl

theorem toText?_isAnswered (key : String) (v : Value) : IsAnswered (toText? key v) := by
  cases v with
  | null => exact isAnswered_ok none
  | text s => exact isAnswered_ok (some s)
  | number n =>
    unfold toText?
    dsimp only
    split
    · exact isAnswered_ok _
    · exact isAnswered_error.mpr rfl
  | _ => exact isAnswered_error.mpr rfl

/-- Binary64 numbers are integers if they equal one; an infinity is not asked whether it does. -/
theorem toInt_float (key : String) (x : Binary64) :
    toInt key (.float x) =
      match x, x.toInt? with
      | .nan, _ => .error (.number .nanToInteger)
      | .infinite _, _ => .error (.number .infinityToInteger)
      | _, some n => .ok n
      | x, none => .error (.value (.notInteger key (some x.text))) := by
  cases x with
  | nan => rfl
  | infinite s => rfl
  | finite s m q h =>
    cases hx : (Binary64.finite s m q h).toInt? with
    | some n =>
      have ht := lift_ok (Number.truncate_of_toInt? hx)
      unfold toInt
      change ((liftM (Number.truncate (.float (.finite s m q h))) : Except Fault Int) >>= _) = _
      rw [ht, ok_bind, hx, if_pos rfl]
      rfl
    | none =>
      unfold toInt
      change (do
        let i ← (Except.ok ((Binary64.units s m q).tdiv Binary64.unit) : Except Fault Int)
        _) = _
      rw [ok_bind, hx, if_neg (by simp)]

theorem toInt_isAnswered_iff :
    IsAnswered (toInt key v) ↔ ¬∃ s, v = .float (.infinite s) := by
  cases v with
  | text s =>
    refine iff_of_true ?_ (by simp [Value.float])
    exact isAnswered_lift.mpr fun e he => Number.readInt_isOfValue he
  | number n =>
    cases n with
    | int i => exact iff_of_true (isAnswered_ok i) (by simp [Value.float])
    | float x =>
      change IsAnswered (toInt key (.float x)) ↔ ¬∃ s, Value.float x = .float (.infinite s)
      rw [toInt_float]
      cases x with
      | nan => exact iff_of_true (isAnswered_error.mpr rfl) (by simp [Value.float])
      | infinite s =>
        refine iff_of_false (fun h => ?_) (by simp [Value.float])
        cases isAnswered_error.mp h
      | finite s m q h =>
        refine iff_of_true ?_ (by simp [Value.float])
        cases (Binary64.finite s m q h).toInt? with
        | none => exact isAnswered_error.mpr rfl
        | some n => exact isAnswered_ok n
  | _ => exact iff_of_true (isAnswered_error.mpr rfl) (by simp [Value.float])

theorem lift_eq_ok_iff {α : Type} {r : Except NumberFault α} {a : α} :
    (liftM r : Except Fault α) = .ok a ↔ r = .ok a := by
  refine ⟨fun h => ?_, lift_ok⟩
  cases r with
  | error e => cases h
  | ok b =>
    cases h
    rfl

/-- Every integer that is taken equals the value or is what a text reads as. -/
theorem toInt_eq_ok_iff {n : Int} :
    toInt key v = .ok n ↔ v = .int n ∨ (∃ x, v = .float x ∧ Number.eq (.float x) (.int n)) ∨
      ∃ s, v = .text s ∧ Number.readInt s = .ok n := by
  cases v with
  | text s =>
    have hlift : toInt key (.text s) = liftM (Number.readInt s) := rfl
    rw [hlift, lift_eq_ok_iff]
    simp [Value.int, Value.float]
  | number m =>
    cases m with
    | int i =>
      have hint : toInt key (.number (.int i)) = .ok i := rfl
      rw [hint]
      simp [Value.int, Value.float]
    | float x =>
      have hx : toInt key (.float x) = .ok n ↔ x.toInt? = some n := by
        rw [toInt_float]
        cases x with
        | nan => simp [Binary64.toInt?]
        | infinite s => simp [Binary64.toInt?]
        | finite s m q h => cases (Binary64.finite s m q h).toInt? <;> simp
      change toInt key (.float x) = .ok n ↔ _
      rw [hx, ← Number.eq_int_iff]
      simp [Value.int, Value.float]
  | _ => simp [toInt, Value.int, Value.float]

theorem toFloat_number (key : String) (n : Number) :
    toFloat key (.number n) = liftM n.toBinary64 := rfl

theorem toFloat_isAnswered_iff :
    IsAnswered (toFloat key v) ↔ ¬∃ i, v = .int i ∧ Binary64.overflow ≤ i.natAbs := by
  cases v with
  | text s =>
    refine iff_of_true ?_ (by simp [Value.int])
    exact isAnswered_lift.mpr fun e he => Number.readFloat_isOfValue he
  | number n =>
    rw [toFloat_number, isAnswered_lift]
    cases n with
    | int i =>
      rw [Number.toBinary64_int]
      by_cases hi : i.natAbs < Binary64.overflow
      · simp [Value.int, hi]
      · simp [Value.int, hi, Nat.le_of_not_lt hi, NumberFault.isOfValue]
    | float x => simp [Number.toBinary64, Value.int]
  | _ => exact iff_of_true (isAnswered_error.mpr rfl) (by simp [Value.int])

/-- Whatever a setting is given as, and under whatever key, it is taken or refused as a value of the
wrong kind, but for an infinity that should be an integer and an integer that no binary64 number is
near. -/
theorem coercions_answered_iff (key : String) (v : Value) :
    IsAnswered (toBool key v) ∧ IsAnswered (toText? key v) ∧
      (IsAnswered (toInt key v) ↔ ¬∃ s, v = .float (.infinite s)) ∧
      (IsAnswered (toFloat key v) ↔ ¬∃ i, v = .int i ∧ Binary64.overflow ≤ i.natAbs) ∧
      ∀ n, toInt key v = .ok n ↔
        v = .int n ∨ (∃ x, v = .float x ∧ Number.eq (.float x) (.int n)) ∨
          ∃ s, v = .text s ∧ Number.readInt s = .ok n :=
  ⟨toBool_isAnswered key v, toText?_isAnswered key v, toInt_isAnswered_iff, toFloat_isAnswered_iff,
    fun _ => toInt_eq_ok_iff⟩

/-- An infinite number of frames and a time scale of `2^1024 - 2^970` break the command. -/
theorem coercions_unanswered :
    toInt "frames" (.float (.infinite false)) = .error (.number .infinityToInteger) ∧
      ¬IsAnswered (toInt "frames" (.float (.infinite false))) ∧
      toFloat "time_scale" (.int Binary64.overflow) = .error (.number .outOfRange) ∧
      ¬IsAnswered (toFloat "time_scale" (.int Binary64.overflow)) := by
  have hrange : Number.toBinary64 (.int Binary64.overflow) = .error .outOfRange := by
    rw [Number.toBinary64_int, Int.natAbs_natCast, if_neg (Nat.lt_irrefl _)]
  have hlarge : toFloat "time_scale" (.int Binary64.overflow) = .error (.number .outOfRange) := by
    rw [Value.int, toFloat_number, hrange]
    rfl
  refine ⟨rfl, ?_, hlarge, ?_⟩
  · rw [toInt_isAnswered_iff, not_not]
    exact ⟨false, rfl⟩
  · rw [hlarge, isAnswered_error]
    decide

end Settings

end Courier
