import Courier.Json.Value
import Courier.Proofs.Number.Rounding

namespace Courier

theorem Number.eq_self {n : Number} (h : n ≠ .float .nan) : Number.eq n n = true := by
  cases n with
  | int i => exact (compare_eq i i).mpr rfl
  | float x =>
    cases x with
    | nan => exact absurd rfl h
    | infinite s => cases s <;> rfl
    | finite s m q hc => exact (compare_eq _ _).mpr rfl

namespace Json

theorem Key.same_self (k : Key) : k.same true k = true := by
  cases k with
  | null => rfl
  | text s => exact decide_eq_true rfl
  | bool b => cases b <;> rfl
  | number n =>
    unfold Key.same
    by_cases h : n = .float .nan
    · subst h
      rfl
    · simp [Key.number?, Number.eq_self h]

namespace Value

mutual

/-- Where NaN equals itself, every value does. -/
theorem equal_self : (v : Value) → equal true v v = true
  | .null => rfl
  | .text s => by
    unfold equal
    exact decide_eq_true rfl
  | .bool b => by cases b <;> rfl
  | .number n => by
    unfold equal
    by_cases h : n = .float .nan
    · subst h
      rfl
    · simp [number?, Number.eq_self h]
  | .list vs => by
    unfold equal
    exact equalLists_self vs
  | .object ms => by
    unfold equal
    rw [decide_eq_true rfl, Bool.true_and]
    exact equalMembers_of_subset ms ms (fun m hm => hm)

theorem equalLists_self : (vs : List Value) → equalLists true vs vs = true
  | [] => rfl
  | v :: vs => by
    unfold equalLists
    rw [equal_self v, equalLists_self vs]
    rfl

theorem equalMembers_of_subset : (ms ns : List (Key × Value)) → (∀ m ∈ ms, m ∈ ns) →
    equalMembers true ms ns = true
  | [], _, _ => rfl
  | (k, v) :: ms, ns, h => by
    unfold equalMembers
    rw [Bool.and_eq_true]
    refine ⟨List.any_eq_true.mpr ⟨(k, v), h _ (by simp), ?_⟩, ?_⟩
    · rw [Key.same_self, equal_self v]
      rfl
    · exact equalMembers_of_subset ms ns (fun m hm => h m (by simp [hm]))

end

/-- A whole number equals what its integer equals. -/
theorem equal_of_toInt? {x : Binary64} {i : Int} (h : x.toInt? = some i) (v : Value) :
    equal true (.float x) v = equal true (.int i) v := by
  have hx : ¬Number.float x = .float .nan := by
    rintro ⟨⟩
    cases h
  have hi : ¬Number.int i = .float .nan := nofun
  have hn (n : Number) : Number.eq (.float x) n = Number.eq (.int i) n := by
    simp only [Number.eq, Number.compare?_of_toInt? h]
  cases v with
  | bool b => simp [equal, float, int, number?, hn, hx, hi]
  | number n => simp [equal, float, int, number?, hn, hx, hi]
  | _ => rfl

theorem equal_int {nanEqual : Bool} {i j : Int} :
    equal nanEqual (.int i) (.int j) ↔ i = j := by
  have hi : ¬Number.int i = .float .nan := nofun
  simp [equal, int, number?, hi, Number.eq, Number.compare?]

theorem equal_int_float {x : Binary64} {i : Int} :
    equal true (.int i) (.float x) ↔ x.toInt? = some i := by
  have hi : ¬Number.int i = .float .nan := nofun
  rw [← Number.int_eq_iff]
  simp [equal, float, int, number?, hi]

end Value

end Json

end Courier
