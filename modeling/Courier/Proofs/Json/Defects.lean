import Courier.Fault
import Courier.Json.Members

namespace Courier

variable {α β : Type}

/-- Reading stops at the first of some faults, and comes to something if there are none. -/
def StopsAt (fs : List Fault) (r : Except Fault α) : Prop :=
  match fs with
  | [] => ∃ a, r = .ok a
  | f :: _ => r = .error f

namespace StopsAt

variable {fs gs : List Fault} {r : Except Fault α} {k : α → Except Fault β}

theorem ok (a : α) : StopsAt [] (.ok a) := ⟨a, rfl⟩

theorem error (f : Fault) : StopsAt [f] (.error f : Except Fault α) := rfl

/-- What is read later has its faults later. -/
theorem bind (hr : StopsAt fs r) (hk : ∀ a, r = .ok a → StopsAt gs (k a)) :
    StopsAt (fs ++ gs) (r >>= k) := by
  cases fs with
  | nil =>
    obtain ⟨a, rfl⟩ := hr
    exact hk a rfl
  | cons f fs =>
    have he : r = .error f := hr
    rw [he]
    exact rfl

/-- What is read later and never fails has no faults. -/
theorem bind_total (hr : StopsAt fs r) (hk : ∀ a, r = .ok a → ∃ b, k a = .ok b) :
    StopsAt fs (r >>= k) := by
  have h : StopsAt (fs ++ []) (r >>= k) := hr.bind hk
  rwa [List.append_nil] at h

theorem bind_ok (hr : StopsAt fs r) (f : α → β) : StopsAt fs (r >>= fun a => .ok (f a)) :=
  hr.bind_total fun a _ => ⟨f a, rfl⟩

theorem eq_nil {a : α} (h : StopsAt fs (.ok a)) : fs = [] := by
  cases fs with
  | nil => rfl
  | cons g fs => cases h

theorem of_bind_ok {f : α → β} (h : StopsAt fs (r >>= fun a => .ok (f a))) : StopsAt fs r := by
  cases r with
  | ok a =>
    cases fs with
    | nil => exact ⟨a, rfl⟩
    | cons g fs => cases h
  | error e =>
    cases fs with
    | nil =>
      obtain ⟨b, hb⟩ := h
      cases hb
    | cons g fs =>
      cases h
      rfl

theorem mapM {f : β → Except Fault α} {faults : β → List Fault} {bs : List β}
    (h : ∀ b ∈ bs, StopsAt (faults b) (f b)) : StopsAt (bs.flatMap faults) (bs.mapM f) := by
  induction bs with
  | nil => exact ⟨[], rfl⟩
  | cons b bs ih =>
    obtain ⟨hb, hbs⟩ := List.forall_mem_cons.mp h
    rw [List.mapM_cons, List.flatMap_cons]
    exact hb.bind fun a _ => (ih hbs).bind_ok _

end StopsAt

/-- A value or a fault of the format. -/
def IsReported (r : Except Fault α) : Prop :=
  (∃ a, r = .ok a) ∨ ∃ cause, r = .error (.format cause)

theorem StopsAt.reported_iff {fs : List Fault} {r : Except Fault α} (h : StopsAt fs r) :
    IsReported r ↔ ∀ f ∈ fs.head?, ∃ cause, f = .format cause := by
  cases fs with
  | nil =>
    obtain ⟨a, rfl⟩ := h
    constructor
    · intro _ f hf
      cases hf
    · exact fun _ => .inl ⟨a, rfl⟩
  | cons g fs =>
    have he : r = .error g := h
    rw [he]
    constructor
    · rintro (⟨a, ha⟩ | ⟨cause, hc⟩) f hf
      · cases ha
      · cases hf
        exact ⟨cause, Except.error.inj hc⟩
    · intro hformat
      obtain ⟨cause, rfl⟩ := hformat g rfl
      exact .inr ⟨cause, rfl⟩

/-- A fault of reading a document: one of the format, or one of those that come of taking a value
for one of another kind or of writing it into a message. -/
inductive Fault.OfReading : Fault → Prop
  | format (cause : FormatFault) : OfReading (.format cause)
  | kind : OfReading (.shape .kind)
  | memberless : OfReading (.shape .memberless)
  | notPair (index length : Nat) : OfReading (.value (.notPair index length))
  | tooLongToWrite : OfReading (.number .tooLongToWrite)

/-- A single fault is of the kind it is. -/
theorem Fault.OfReading.of_mem_singleton {f g : Fault} (hg : g.OfReading) (h : f ∈ [g]) :
    f.OfReading := by
  rw [List.mem_singleton.mp h]
  exact hg

theorem Fault.showing_ofReading (v : Json.Value) (cause : FormatFault) :
    (showing v cause).OfReading := by
  unfold showing
  split
  · exact .format _
  · exact .tooLongToWrite

namespace Json.Value

variable {f : Fault} {v : Value}
/-- Why a value cannot be taken as the pair with a number in a list. -/
def pairFaults (index : Nat) (v : Value) : List Fault :=
  match v.parts? with
  | none => [.shape .kind]
  | some [k, _] => if k.key?.isSome then [] else [.shape .kind]
  | some ws => [.value (.notPair index ws.length)]

/-- Why a value cannot be taken as members: it is filled and neither an object nor consists of
pairs. -/
def memberFaults (v : Value) : List Fault :=
  if v.isFilled then
    match v with
    | .object _ => []
    | v =>
      match v.parts? with
      | none => [.shape .kind]
      | some vs => vs.zipIdx.flatMap (fun p => pairFaults p.2 p.1)
  else []

theorem ofReading_of_pairFaults {index : Nat} (h : f ∈ pairFaults index v) : f.OfReading := by
  unfold pairFaults at h
  split at h
  · exact .of_mem_singleton .kind h
  · split at h
    · cases h
    · exact .of_mem_singleton .kind h
  · exact .of_mem_singleton (.notPair _ _) h

theorem ofReading_of_memberFaults (h : f ∈ v.memberFaults) : f.OfReading := by
  unfold memberFaults at h
  split at h
  · split at h
    · cases h
    · split at h
      · exact .of_mem_singleton .kind h
      · obtain ⟨p, _, hp⟩ := List.mem_flatMap.mp h
        exact ofReading_of_pairFaults hp
  · cases h

theorem pairs_stops (nanEqual : Bool) (index : Nat) (read : Members) (vs : List Value) :
    StopsAt ((vs.zipIdx index).flatMap (fun p => pairFaults p.2 p.1))
      (pairs nanEqual index read vs) := by
  induction vs generalizing index read with
  | nil => exact .ok read
  | cons v vs ih =>
    rw [List.zipIdx_cons, List.flatMap_cons]
    dsimp only
    cases hp : v.parts? with
    | none =>
      rw [pairFaults, pairs, hp]
      rfl
    | some ws =>
      rw [pairFaults, pairs, hp]
      match ws with
      | [k, w] =>
        dsimp only
        cases k.key? with
        | none => rfl
        | some key => exact ih _ _
      | [] => rfl
      | [_] => rfl
      | _ :: _ :: _ :: _ => rfl

theorem toMembers_stops (nanEqual : Bool) (v : Value) :
    StopsAt v.memberFaults (v.toMembers nanEqual) := by
  unfold memberFaults toMembers
  split
  · cases v with
    | object ms => exact .ok ms
    | text s => exact pairs_stops nanEqual 0 [] _
    | list vs => exact pairs_stops nanEqual 0 [] _
    | null => rfl
    | bool b => rfl
    | number n => rfl
  · exact .ok []

/-- Why a value cannot be written. -/
def textFaults (v : Value) : List Fault :=
  if v.isWritable then [] else [.number .tooLongToWrite]

theorem ofReading_of_textFaults (h : f ∈ v.textFaults) : f.OfReading := by
  unfold textFaults at h
  split at h
  · cases h
  · exact .of_mem_singleton .tooLongToWrite h

theorem toPlain_stops (v : Value) : StopsAt v.textFaults v.toPlain := by
  unfold textFaults toPlain
  split
  · exact .ok _
  · exact .error _

end Json.Value

end Courier
