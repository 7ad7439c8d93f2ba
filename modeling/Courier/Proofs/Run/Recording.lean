import Mathlib.Data.ENat.Basic
import Mathlib.Data.List.Induction
import Courier.Proofs.Number.Span
import Courier.Run.Recorder

namespace Courier

namespace Number

/-- Among whole numbers a number counts as `t`, if it is at least one. -/
structure Ceiling (n : Number) (t : ℕ∞) : Prop where
  pos : 1 ≤ t
  notLess : n.lt (.int 1) = false
  le_iff : ∀ k : Nat, n.le (.int k) ↔ t ≤ k
  lt_iff : ∀ k : Nat, Number.lt (.int k) n ↔ (k : ℕ∞) < t

/-- A number that is at least one counts as the next whole number, or as none if it is infinite. -/
theorem exists_ceiling {n : Number} (h : Number.le (.int 1) n) : ∃ t : ℕ∞, n.Ceiling t := by
  cases n with
  | int i =>
    have hi : 1 ≤ i := (compare_le 1 i).mp h
    refine ⟨i.toNat, ?_, ?_, fun k => ?_, fun k => ?_⟩
    · exact_mod_cast (show 1 ≤ i.toNat by omega)
    · refine Bool.eq_false_iff.mpr (fun hlt => ?_)
      have hb := (compare_lt i 1).mp hlt
      omega
    · rw [Nat.cast_le]
      exact (compare_le i k).trans (by omega)
    · rw [Nat.cast_lt]
      exact (compare_lt k i).trans (by omega)
  | float x =>
    cases x with
    | nan => exact absurd h (by decide)
    | infinite s =>
      cases s with
      | true => exact absurd h (by decide)
      | false => exact ⟨⊤, le_top, rfl, by simp [le, compare?], by simp [lt, compare?]⟩
    | finite s m q hc =>
      have hunit : (0 : Int) < Binary64.unit := Int.natCast_pos.mpr Binary64.unit_pos
      generalize hu : Binary64.units s m q = u
      have hone : 1*(Binary64.unit : Int) ≤ u := by
        rw [← hu]
        exact (compare_le _ _).mp h
      -- the least whole number that is not below the number
      let c : Int := -((-u) / Binary64.unit)
      have hceil (k : Int) : u ≤ k*Binary64.unit ↔ c ≤ k := by
        have hdiv := Int.le_ediv_iff_mul_le (a := -k) (b := -u) hunit
        rw [Int.neg_mul] at hdiv
        omega
      have hpos : 1 ≤ c := by
        by_contra hlt
        have h0 := (hceil 0).mpr (by omega)
        omega
      refine ⟨c.toNat, ?_, ?_, fun k => ?_, fun k => ?_⟩
      · exact_mod_cast (show 1 ≤ c.toNat by omega)
      · refine Bool.eq_false_iff.mpr (fun hlt => ?_)
        have hb := (compare_lt _ _).mp hlt
        rw [hu] at hb
        omega
      · rw [Nat.cast_le]
        refine (compare_le _ _).trans ?_
        rw [hu, hceil k]
        omega
      · have hk := hceil k
        rw [Nat.cast_lt]
        refine (compare_lt _ _).trans ?_
        rw [hu]
        omega

end Number

namespace Recorder

/-- What can be called on a recorder. -/
inductive Call
  | record (p : Pose Binary64)
  | flush
  | close

namespace Call

def perform : Call → Recording Unit
  | .record p => Recorder.record p
  | .flush => Recorder.flush
  | .close => Recorder.close

def pose? : Call → Option (Pose Binary64)
  | .record p => some p
  | _ => none

/-- The poses that some calls record. -/
def poses (cs : List Call) : List (Pose Binary64) := cs.filterMap pose?

/-- Calls that record poses with a cargo that the trace has a column for. -/
def AreFit (cs : List Call) : Prop := ∀ p ∈ poses cs, Table.isFlag p.cargo

@[simp] theorem poses_nil : poses [] = [] := rfl

@[simp] theorem poses_append (cs ds : List Call) : poses (cs ++ ds) = poses cs ++ poses ds := by
  simp [poses]

@[simp] theorem poses_record (p : Pose Binary64) : poses [.record p] = [p] := rfl

@[simp] theorem poses_flush : poses [.flush] = [] := rfl

@[simp] theorem poses_close : poses [.close] = [] := rfl

theorem AreFit.append_iff {cs ds : List Call} :
    AreFit (cs ++ ds) ↔ AreFit cs ∧ AreFit ds := by
  simp [AreFit, or_imp, forall_and]

end Call

/-- A recorder after some calls, whatever has become of each. -/
def after (r : Recorder) (cs : List Call) : Recorder := cs.foldl (fun r c => (c.perform r).2) r

@[simp] theorem after_nil (r : Recorder) : r.after [] = r := rfl

theorem after_append (r : Recorder) (cs ds : List Call) :
    r.after (cs ++ ds) = (r.after cs).after ds := by
  simp [after, List.foldl_append]

theorem after_concat (r : Recorder) (cs : List Call) (c : Call) :
    r.after (cs ++ [c]) = (c.perform (r.after cs)).2 := after_append r cs [c]

/-- The row of the pose with number `k`. -/
def row (id : Json.Value) (k : Nat) (p : Pose Binary64) : List Json.Value :=
  Table.traceRow id k p (.bool p.moving)

/-- The rows so far, those written and those not yet written. -/
def rows (r : Recorder) : List (List Json.Value) :=
  (r.writer.getD []).reverse.flatten ++ r.buffer.reverse

/-- A recorder whose buffer is written as one group. -/
def written (r : Recorder) : Recorder :=
  { r with
    buffer := [], writer := some (r.buffer.reverse :: r.writer.getD []), file := .unfinished }

/-- A recorder with one more row in its buffer. -/
def added (r : Recorder) (p : Pose Binary64) : Recorder :=
  { r with buffer := row r.runId r.recorded p :: r.buffer, recorded := r.recorded+1 }

/-- A recorder whose writer is closed. -/
def finished (r : Recorder) : Recorder :=
  { r with writer := none, file := .finished ⟨Table.traceColumns, (r.writer.getD []).reverse⟩ }

@[simp] theorem rows_written (r : Recorder) : r.written.rows = r.rows := by
  simp [rows, written]

@[simp] theorem rows_added (r : Recorder) (p : Pose Binary64) :
    (r.added p).rows = r.rows ++ [row r.runId r.recorded p] := by
  simp [rows, added]

/-- A recorder that can write: all its rows fit the columns, and fewer of them than a group wait in
the buffer. -/
structure Sound (id : Json.Value) (n : Number) (r : Recorder) : Prop where
  runId : r.runId = id
  textual : Table.isTextual r.runId
  threshold : r.threshold = n
  complete : r.incomplete = 0
  fit : r.spoiled = false
  waiting : Number.lt (.int r.waiting) n

section Steps

variable {id : Json.Value} {n : Number} {r : Recorder} {p : Pose Binary64}

theorem flush_idle (h : r.waiting = 0) : flush r = (.ok (), r) := by
  have hf : flush r = (if r.waiting = 0 then (pure () : Recording Unit) else _) r := rfl
  rw [hf, if_pos h]
  rfl

theorem flush_writes (h : r.waiting ≠ 0) (ht : Table.isTextual r.runId) (hs : r.spoiled = false) :
    flush r = (.ok (), r.written) := by
  have hf : flush r = (if r.waiting = 0 then (pure () : Recording Unit) else do
      if !Table.isTextual r.runId then throw .unfitKind
      if r.spoiled then throw .unfitValue
      set r.written) r := rfl
  have hid : ¬(!Table.isTextual r.runId) = true := by simp [ht]
  have hfit : ¬r.spoiled = true := by simp [hs]
  rw [hf, if_neg h, if_neg hid, if_neg hfit]
  rfl

theorem flushFull_eq (r : Recorder) :
    flushFull r = if r.threshold.le (.int r.waiting) then flush r else (.ok (), r) := by
  have hf : flushFull r = (if r.threshold.le (.int r.waiting) then flush else
    (pure () : Recording Unit)) r := rfl
  rw [hf]
  split <;> rfl

theorem record_eq (hs : r.spoiled = false) (hp : Table.isFlag p.cargo) :
    record p r = flushFull (r.added p) := by
  have hr : record p r = flushFull { r.added p with
      spoiled := r.spoiled || !(Table.isFlag p.cargo && Table.isFlag (.bool p.moving)) } := rfl
  have hflag : (r.spoiled || !(Table.isFlag p.cargo && Table.isFlag (.bool p.moving))) =
      r.spoiled := by
    rw [hs, hp]
    rfl
  rw [hr, hflag]
  rfl

theorem close_closed (h : r.closed = true) : close r = (.ok (), r) := by
  have hf : close r = (if r.closed = true then (pure () : Recording Unit) else _) r := rfl
  rw [hf, if_pos h]
  rfl

/-- A step that is done, followed by another one. -/
theorem bind_done {α β : Type} {m : Recording α} {q : Recorder} {a : α} (h : m r = (.ok a, q))
    (f : α → Recording β) : (m >>= f) r = f a q := by
  have hb : (m >>= f) r = (ExceptT.bindCont f (m r).1) (m r).2 := rfl
  rw [hb, h]
  rfl

theorem close_open (h : r.closed = false) {q : Recorder}
    (hq : flush { r with closed := true } = (.ok (), q)) : close r = (.ok (), q.finished) := by
  have hf : close r = (if r.closed = true then (pure () : Recording Unit) else do
      set { r with closed := true }
      flush
      modify finished) r := rfl
  have hset : (set { r with closed := true } : Recording PUnit) r =
      (.ok ⟨⟩, { r with closed := true }) := rfl
  rw [hf, if_neg (by simp [h]), bind_done hset, bind_done hq]
  rfl

end Steps

/-- How a recorder that can write takes a pose: it writes the buffer if that makes a group. -/
def took (r : Recorder) (p : Pose Binary64) : Recorder :=
  if r.threshold.le (.int (r.added p).waiting) then (r.added p).written else r.added p

def flushed (r : Recorder) : Recorder := if r.waiting = 0 then r else r.written

@[simp] theorem closed_took (r : Recorder) (p : Pose Binary64) :
    (r.took p).closed = r.closed := by
  unfold took
  split <;> rfl

@[simp] theorem recorded_took (r : Recorder) (p : Pose Binary64) :
    (r.took p).recorded = r.recorded+1 := by
  unfold took
  split <;> rfl

@[simp] theorem rows_took (r : Recorder) (p : Pose Binary64) :
    (r.took p).rows = r.rows ++ [row r.runId r.recorded p] := by
  unfold took
  split
  · rw [rows_written, rows_added]
  · exact rows_added r p

@[simp] theorem closed_flushed (r : Recorder) : r.flushed.closed = r.closed := by
  unfold flushed
  split <;> rfl

@[simp] theorem recorded_flushed (r : Recorder) : r.flushed.recorded = r.recorded := by
  unfold flushed
  split <;> rfl

@[simp] theorem rows_flushed (r : Recorder) : r.flushed.rows = r.rows := by
  unfold flushed
  split
  · rfl
  · exact rows_written r

def shut (r : Recorder) : Recorder :=
  if r.closed then r else ({ r with closed := true } : Recorder).flushed.finished

/-- What a call makes of a recorder that can write. -/
def upshot (r : Recorder) : Call → Recorder
  | .record p => r.took p
  | .flush => r.flushed
  | .close => r.shut

-- A recorder that can write goes on doing so, under any calls that record fit poses.

section Sound

variable {id : Json.Value} {n : Number} {t : ℕ∞} {r : Recorder} {p : Pose Binary64}

theorem flush_eq (h : Sound id n r) : flush r = (.ok (), r.flushed) := by
  unfold flushed
  split
  · next hw => exact flush_idle hw
  · next hw => exact flush_writes hw h.textual h.fit

theorem Sound.withClosed (h : Sound id n r) : Sound id n { r with closed := true } :=
  ⟨h.runId, h.textual, h.threshold, h.complete, h.fit, h.waiting⟩

theorem perform_eq (h : Sound id n r) {c : Call} (hc : Call.AreFit [c]) :
    c.perform r = (.ok (), r.upshot c) := by
  cases c with
  | record p =>
    have hp : Table.isFlag p.cargo := hc p (by simp)
    have hw : (r.added p).waiting ≠ 0 := by simp [waiting, added]
    change record p r = (.ok (), r.took p)
    rw [record_eq h.fit hp, flushFull_eq, took]
    change (if r.threshold.le (.int (r.added p).waiting) then _ else _) = _
    split
    · exact flush_writes hw h.textual h.fit
    · rfl
  | flush => exact flush_eq h
  | close =>
    change close r = (.ok (), r.shut)
    unfold shut
    cases hr : r.closed with
    | true => exact close_closed hr
    | false => exact close_open hr (flush_eq h.withClosed)

theorem Sound.empty (h : Sound id n r) (hn : n.Ceiling t) {q : Recorder} (hid : q.runId = r.runId)
    (ht : q.threshold = r.threshold) (hi : q.incomplete = r.incomplete)
    (hs : q.spoiled = r.spoiled) (hb : q.buffer = []) : Sound id n q := by
  refine ⟨hid.trans h.runId, by rw [hid]; exact h.textual, ht.trans h.threshold,
    hi.trans h.complete, hs.trans h.fit, (hn.lt_iff _).mpr ?_⟩
  have hw : q.waiting = 0 := by
    rw [Recorder.waiting, hb, hi, h.complete]
    rfl
  rw [hw]
  exact lt_of_lt_of_le (by decide) hn.pos

theorem Sound.written (h : Sound id n r) (hn : n.Ceiling t) : Sound id n r.written :=
  h.empty hn rfl rfl rfl rfl rfl

theorem Sound.flushed (h : Sound id n r) (hn : n.Ceiling t) : Sound id n r.flushed := by
  unfold Recorder.flushed
  split
  · exact h
  · exact h.written hn

theorem waiting_flushed (h : Sound id n r) : r.flushed.waiting = 0 := by
  unfold flushed
  split
  · next hw => exact hw
  · simpa [waiting, written] using h.complete

theorem Sound.finished (h : Sound id n r) : Sound id n r.finished :=
  ⟨h.runId, h.textual, h.threshold, h.complete, h.fit, h.waiting⟩

/-- One call keeps a recorder able to write. -/
theorem Sound.upshot (h : Sound id n r) (hn : n.Ceiling t) (c : Call) :
    Sound id n (r.upshot c) := by
  cases c with
  | record p =>
    change Sound id n (r.took p)
    unfold took
    split
    · exact h.empty hn rfl rfl rfl rfl rfl
    · next hle =>
      refine ⟨h.runId, h.textual, h.threshold, h.complete, h.fit, (hn.lt_iff _).mpr ?_⟩
      rw [h.threshold, hn.le_iff] at hle
      exact not_le.mp hle
  | flush => exact h.flushed hn
  | close =>
    change Sound id n r.shut
    unfold shut
    split
    · exact h
    · exact (h.withClosed.flushed hn).finished

theorem Sound.after (h : Sound id n r) (hn : n.Ceiling t) {cs : List Call}
    (hc : Call.AreFit cs) : Sound id n (r.after cs) := by
  induction cs using List.reverseRecOn with
  | nil => exact h
  | append_singleton cs c ih =>
    obtain ⟨hcs, hlast⟩ := Call.AreFit.append_iff.mp hc
    rw [after_concat, perform_eq (ih hcs) hlast]
    exact (ih hcs).upshot hn c

theorem after_concat_eq (h : Sound id n r) (hn : n.Ceiling t) {cs : List Call} {c : Call}
    (hc : Call.AreFit (cs ++ [c])) :
    c.perform (r.after cs) = (.ok (), (r.after cs).upshot c) ∧
      r.after (cs ++ [c]) = (r.after cs).upshot c := by
  obtain ⟨hcs, hlast⟩ := Call.AreFit.append_iff.mp hc
  have hp := perform_eq (h.after hn hcs) hlast
  exact ⟨hp, by rw [after_concat, hp]⟩

/-- A recorder that has kept all poses so far, each in its row. -/
structure Keeps (id : Json.Value) (n : Number) (ps : List (Pose Binary64)) (r : Recorder) :
    Prop where
  sound : Sound id n r
  isOpen : r.closed = false
  recorded : r.recorded = ps.length
  rows : r.rows = ps.mapIdx (row id)

/-- A recorder that was closed on a table and has not written since. -/
structure Seals (id : Json.Value) (n : Number) (x : Table) (r : Recorder) : Prop where
  sound : Sound id n r
  closed : r.closed = true
  writer : r.writer = none
  file : r.file = .finished x

/-- A recorder that was closed and has begun another file in the place of the one it had. -/
structure Begins (id : Json.Value) (n : Number) (r : Recorder) : Prop where
  sound : Sound id n r
  closed : r.closed = true
  file : r.file = .unfinished

theorem keeps_make (hn : n.Ceiling t) (s : String) :
    Keeps (.text s) n [] ⟨.text s, n, 0, [], 0, false, none, false, .missing⟩ := by
  refine ⟨⟨rfl, rfl, rfl, rfl, rfl, (hn.lt_iff 0).mpr ?_⟩, rfl, rfl, rfl⟩
  exact lt_of_lt_of_le (by decide) hn.pos

/-- One pose or flush keeps the rows in order. -/
theorem Keeps.upshot {ps : List (Pose Binary64)} (h : Keeps id n ps r) (hn : n.Ceiling t)
    {c : Call} (hc : c ≠ .close) : Keeps id n (ps ++ Call.poses [c]) (r.upshot c) := by
  have hs := h.sound.upshot hn c
  cases c with
  | record p =>
    refine ⟨hs, (closed_took r p).trans h.isOpen, ?_, ?_⟩
    · refine (recorded_took r p).trans ?_
      rw [h.recorded]
      simp
    · refine (rows_took r p).trans ?_
      rw [h.rows, h.sound.runId, h.recorded]
      simp [List.mapIdx_append]
  | flush =>
    have hposes : ps ++ Call.poses [.flush] = ps := List.append_nil ps
    rw [hposes]
    exact ⟨hs, (closed_flushed r).trans h.isOpen, (recorded_flushed r).trans h.recorded,
      (rows_flushed r).trans h.rows⟩
  | close => exact absurd rfl hc

theorem Keeps.after (h : Keeps id n [] r) (hn : n.Ceiling t) {cs : List Call}
    (hc : Call.AreFit cs) (hopen : .close ∉ cs) : Keeps id n (Call.poses cs) (r.after cs) := by
  induction cs using List.reverseRecOn with
  | nil => exact h
  | append_singleton cs c ih =>
    obtain ⟨hcs, _⟩ := Call.AreFit.append_iff.mp hc
    have hlast : c ≠ .close := by
      rintro rfl
      exact hopen (by simp)
    have hk := ih hcs (fun hm => hopen (by simp [hm]))
    rw [(after_concat_eq h.sound hn hc).2, Call.poses_append]
    exact hk.upshot hn hlast

/-- Closing leaves the rows so far in the file. -/
theorem Keeps.shut {ps : List (Pose Binary64)} (h : Keeps id n ps r) (hn : n.Ceiling t) :
    ∃ x : Table, Seals id n x r.shut ∧ r.shut.waiting = 0 ∧ r.shut.recorded = ps.length ∧
      x.columns = Table.traceColumns ∧ x.rows = ps.mapIdx (row id) := by
  let q : Recorder := ({ r with closed := true } : Recorder).flushed
  have hq : r.shut = q.finished := if_neg (by simp [h.isOpen])
  have hwait : q.waiting = 0 := waiting_flushed h.sound.withClosed
  have hbuffer : q.buffer = [] := by
    have hle : q.buffer.length ≤ q.waiting := Nat.le_add_right _ _
    exact List.eq_nil_of_length_eq_zero (by omega)
  have hclosed : q.closed = true := closed_flushed _
  have hrecorded : q.recorded = r.recorded := recorded_flushed _
  have hrows : q.rows = r.rows := rows_flushed _
  rw [Recorder.rows, hbuffer, List.reverse_nil, List.append_nil] at hrows
  rw [hq]
  refine ⟨⟨Table.traceColumns, (q.writer.getD []).reverse⟩,
    ⟨(h.sound.withClosed.flushed hn).finished, hclosed, rfl, rfl⟩, hwait,
    hrecorded.trans h.recorded, rfl, ?_⟩
  exact hrows.trans h.rows

end Sound

section Trace

variable {id : Json.Value} {n : Number} {t : ℕ∞} {r : Recorder} {x : Table} {cs : List Call}

theorem make_eq_ok {threshold : Json.Value} (ht : threshold.number? = some n)
    (hn : n.lt (.int 1) = false) (s : String) :
    make (.text s) threshold = .ok ⟨.text s, n, 0, [], 0, false, none, false, .missing⟩ := by
  unfold make
  rw [ht]
  dsimp only
  rw [hn]
  rfl

theorem after_close (h : Sound id n r) : r.after [.close] = r.shut :=
  congrArg Prod.snd (perform_eq (c := .close) h (by simp [Call.AreFit]))

/-- Closing a closed recorder once more changes nothing. -/
theorem after_closes (h : r.closed = true) (k : Nat) :
    r.after (List.replicate k .close) = r := by
  induction k with
  | zero => rfl
  | succ k ih =>
    have hc : (Call.perform .close r).2 = r := congrArg Prod.snd (close_closed h)
    rw [List.replicate_succ, after, List.foldl_cons, hc]
    exact ih

/-- The calls of a list ending in closes record what the list does. -/
theorem areFit_closes (hc : Call.AreFit cs) (k : Nat) :
    Call.AreFit (cs ++ List.replicate k .close) := by
  refine Call.AreFit.append_iff.mpr ⟨hc, ?_⟩
  intro p hp
  obtain ⟨d, hd, hpose⟩ := List.mem_filterMap.mp hp
  rw [List.eq_of_mem_replicate hd] at hpose
  cases hpose

/-- Poses that are recorded and flushed in any way and then closed, once or more: each call returns
and leaves fewer rows waiting than make a group, and the file holds one row for each pose, in order
and numbered from zero. -/
theorem trace_in_order {threshold : Json.Value} (ht : threshold.number? = some n)
    (hn : Number.le (.int 1) n) (s : String) (hc : Call.AreFit cs) (hopen : .close ∉ cs)
    (k : Nat) :
    ∃ r, make (.text s) threshold = .ok r ∧
      (∀ as c bs, cs ++ List.replicate (k+1) .close = as ++ c :: bs →
        (c.perform (r.after as)).1 = .ok () ∧
          Number.lt (.int (r.after (as ++ [c])).waiting) n) ∧
      (r.after (cs ++ List.replicate (k+1) .close)).recorded = (Call.poses cs).length ∧
      ∃ x, (r.after (cs ++ List.replicate (k+1) .close)).file = .finished x ∧
        x.columns = Table.traceColumns ∧
        x.rows = (Call.poses cs).mapIdx (row (.text s)) := by
  obtain ⟨t, hceil⟩ := Number.exists_ceiling hn
  have hkeeps := keeps_make hceil s
  refine ⟨_, make_eq_ok ht hceil.notLess s, ?_, ?_⟩
  · intro as c bs heq
    have hall := areFit_closes hc (k+1)
    have hfit : Call.AreFit (as ++ [c]) := by
      rw [heq, ← List.singleton_append, ← List.append_assoc] at hall
      exact (Call.AreFit.append_iff.mp hall).1
    have hlast := after_concat_eq hkeeps.sound hceil hfit
    exact ⟨by rw [hlast.1], (hkeeps.sound.after hceil hfit).waiting⟩
  · have hafter := hkeeps.after hceil hc hopen
    obtain ⟨x, hx, _, hrecorded, hcolumns, hrows⟩ := hafter.shut hceil
    have hend := after_closes hx.closed k
    rw [← after_close hafter.sound, ← after_append, List.singleton_append,
      ← List.replicate_succ, after_close hafter.sound] at hend
    rw [after_append, hend]
    exact ⟨hrecorded, x, hx.file, hcolumns, hrows⟩

/-- Three poses with a flush after the first one, under a threshold of two. -/
theorem trace_in_order_flushed :
    let p := (Stance.start 1).pose Binary64
    let cs : List Call := [.record p, .flush, .record p, .record p]
    Call.AreFit cs ∧ .close ∉ cs ∧
      ∃ r, make (.text "run") (.int 2) = .ok r ∧
        (r.after (cs ++ [.close, .close])).recorded = 3 ∧
        ∃ x, (r.after (cs ++ [.close, .close])).file = .finished x ∧
          x.rows = [row (.text "run") 0 p, row (.text "run") 1 p, row (.text "run") 2 p] := by
  intro p cs
  have hfit : Call.AreFit cs := by
    intro q hq
    have hmem : q ∈ [p, p, p] := hq
    obtain rfl : q = p := by simpa using hmem
    rfl
  have hopen : .close ∉ cs := by simp [cs]
  have hnumber : Json.Value.number? (.int 2) = some (.int 2) := rfl
  obtain ⟨r, hmake, _, hrecorded, x, hfile, _, hrows⟩ :=
    trace_in_order hnumber (by decide) "run" hfit hopen 1
  exact ⟨hfit, hopen, r, hmake, hrecorded, x, hfile, hrows⟩

-- After a close nothing is in the buffer, and the next group to be written takes over the file.

/-- Calls that write a group if none is waiting before them: they record enough poses for one, or
flush after a pose. -/
def Call.Write (n : Number) (cs : List Call) : Prop :=
  n.le (.int (poses cs).length) ∨ ∃ as bs, cs = as ++ .flush :: bs ∧ poses as ≠ []

/-- A flush after a pose is among the first calls or is the last one. -/
theorem Call.exists_flush_concat {ls : List Call} {c : Call} :
    (∃ as bs, ls ++ [c] = as ++ .flush :: bs ∧ poses as ≠ []) ↔
      (∃ as bs, ls = as ++ .flush :: bs ∧ poses as ≠ []) ∨ c = .flush ∧ poses ls ≠ [] := by
  constructor
  · rintro ⟨as, bs, heq, has⟩
    rcases List.eq_nil_or_concat bs with rfl | ⟨bs, d, rfl⟩
    · obtain ⟨rfl, hc⟩ := List.append_inj' heq rfl
      cases hc
      exact .inr ⟨rfl, has⟩
    · have hsplit : ls ++ [c] = (as ++ .flush :: bs) ++ [d] := by simpa using heq
      exact .inl ⟨as, bs, (List.append_inj' hsplit rfl).1, has⟩
  · rintro (⟨as, bs, rfl, has⟩ | ⟨rfl, hls⟩)
    · exact ⟨as, bs ++ [c], by simp, has⟩
    · exact ⟨ls, [], rfl, hls⟩

theorem Call.write_record (hn : n.Ceiling t) {ls : List Call} {p : Pose Binary64} :
    Write n (ls ++ [.record p]) ↔ Write n ls ∨ n.le (.int ((poses ls).length+1 : Nat)) := by
  have hmono : n.le (.int (poses ls).length) → n.le (.int ((poses ls).length+1 : Nat)) := by
    rw [hn.le_iff, hn.le_iff]
    exact fun h => h.trans (by simp)
  unfold Write
  rw [exists_flush_concat, poses_append, poses_record, List.length_append, List.length_singleton]
  simp only [reduceCtorEq, false_and, or_false]
  constructor
  · rintro (hfull | hflush)
    · exact .inr hfull
    · exact .inl (.inr hflush)
  · rintro ((hfull | hflush) | hfull)
    · exact .inl (hmono hfull)
    · exact .inr hflush
    · exact .inl hfull

theorem Call.write_flush {ls : List Call} :
    Write n (ls ++ [.flush]) ↔ Write n ls ∨ poses ls ≠ [] := by
  unfold Write
  rw [exists_flush_concat, poses_append, poses_flush, List.append_nil, or_assoc]
  simp

theorem Call.write_close {ls : List Call} : Write n (ls ++ [.close]) ↔ Write n ls := by
  unfold Write
  rw [exists_flush_concat, poses_append, poses_close, List.append_nil]
  simp

/-- No call writes a group if there are no calls. -/
theorem Call.not_write_nil (hn : n.Ceiling t) : ¬Write n [] := by
  rintro (hfull | ⟨as, bs, heq, _⟩)
  · have hle : t ≤ (0 : Nat) := (hn.le_iff 0).mp hfull
    exact absurd (hn.pos.trans hle) (by decide)
  · exact absurd heq (by simp)

/-- A pose after a close waits in the buffer, unless it makes a group. -/
theorem Seals.took (h : Seals id n x r) (hn : n.Ceiling t) (p : Pose Binary64) :
    (n.le (.int (r.waiting+1 : Nat)) → Begins id n (r.took p)) ∧
      (¬n.le (.int (r.waiting+1 : Nat)) →
        Seals id n x (r.took p) ∧ (r.took p).waiting = r.waiting+1) := by
  have hs : Sound id n (r.took p) := h.sound.upshot hn (.record p)
  have hw : (r.added p).waiting = r.waiting+1 := Nat.succ_add _ _
  unfold Recorder.took at hs ⊢
  rw [h.sound.threshold, hw] at hs ⊢
  constructor
  · intro hfull
    rw [if_pos hfull] at hs ⊢
    exact ⟨hs, h.closed, rfl⟩
  · intro hfull
    rw [if_neg hfull] at hs ⊢
    exact ⟨⟨hs, h.closed, h.writer, h.file⟩, hw⟩

/-- A flush after a close takes over the file if a pose is waiting. -/
theorem Seals.flushed (h : Seals id n x r) (hn : n.Ceiling t) (hw : r.waiting ≠ 0) :
    Begins id n r.flushed := by
  have hs := h.sound.flushed hn
  unfold Recorder.flushed at hs ⊢
  rw [if_neg hw] at hs ⊢
  exact ⟨hs, h.closed, rfl⟩

/-- A recorder that has begun another file never finishes it. -/
theorem Begins.upshot (h : Begins id n r) (hn : n.Ceiling t) (c : Call) :
    Begins id n (r.upshot c) := by
  have hs := h.sound.upshot hn c
  cases c with
  | record p =>
    have hfile : (r.took p).file = .unfinished := by
      unfold Recorder.took
      split
      · rfl
      · exact h.file
    exact ⟨hs, (closed_took r p).trans h.closed, hfile⟩
  | flush =>
    have hfile : r.flushed.file = .unfinished := by
      unfold Recorder.flushed
      split
      · exact h.file
      · rfl
    exact ⟨hs, (closed_flushed r).trans h.closed, hfile⟩
  | close =>
    have hr : r.shut = r := if_pos h.closed
    change Begins id n r.shut
    rw [hr]
    exact h

/-- A closed recorder leaves its file alone until a group is written, and then has begun another
one for good. -/
theorem Seals.after (h : Seals id n x r) (hw : r.waiting = 0) (hn : n.Ceiling t)
    {ls : List Call} (hl : Call.AreFit ls) :
    (Call.Write n ls → Begins id n (r.after ls)) ∧
      (¬Call.Write n ls →
        Seals id n x (r.after ls) ∧ (r.after ls).waiting = (Call.poses ls).length) := by
  -- as long as no group was written, all the poses since the close are waiting
  induction ls using List.reverseRecOn with
  | nil => exact ⟨fun hwr => absurd hwr (Call.not_write_nil hn), fun _ => ⟨h, hw⟩⟩
  | append_singleton ls c ih =>
    obtain ⟨ihwrite, ihwait⟩ := ih (Call.AreFit.append_iff.mp hl).1
    rw [(after_concat_eq h.sound hn hl).2, Call.poses_append]
    by_cases hbefore : Call.Write n ls
    · -- another file was begun by the calls before this one
      have hall : Call.Write n (ls ++ [c]) := by
        cases c with
        | record p => exact (Call.write_record hn).mpr (.inl hbefore)
        | flush => exact Call.write_flush.mpr (.inl hbefore)
        | close => exact Call.write_close.mpr hbefore
      exact ⟨fun _ => (ihwrite hbefore).upshot hn c, fun hnot => absurd hall hnot⟩
    · obtain ⟨hseals, hwait⟩ := ihwait hbefore
      cases c with
      | record p =>
        obtain ⟨hfull, hroom⟩ := hseals.took hn p
        rw [hwait] at hfull hroom
        have hiff : Call.Write n (ls ++ [.record p]) ↔ _ := Call.write_record hn
        refine ⟨fun hwr => hfull ((hiff.mp hwr).resolve_left hbefore), fun hnot => ?_⟩
        obtain ⟨hkept, hnext⟩ := hroom (fun hle => hnot (hiff.mpr (.inr hle)))
        exact ⟨hkept, hnext.trans (by simp)⟩
      | flush =>
        refine ⟨fun hwr => hseals.flushed hn ?_, fun hnot => ?_⟩
        · have hposes := (Call.write_flush.mp hwr).resolve_left hbefore
          rw [hwait]
          exact fun h0 => hposes (List.eq_nil_of_length_eq_zero h0)
        · have hposes : Call.poses ls = [] := by
            by_contra hne
            exact hnot (Call.write_flush.mpr (.inr hne))
          have hidle : (r.after ls).waiting = 0 := by
            rw [hwait, hposes]
            rfl
          have hsame : (r.after ls).flushed = r.after ls := if_pos hidle
          change Seals id n x (r.after ls).flushed ∧ (r.after ls).flushed.waiting = _
          rw [hsame]
          exact ⟨hseals, by simp [hidle, hposes]⟩
      | close =>
        have hsame : (r.after ls).shut = r.after ls := if_pos hseals.closed
        refine ⟨fun hwr => absurd (Call.write_close.mp hwr) hbefore, fun _ => ?_⟩
        change Seals id n x (r.after ls).shut ∧ (r.after ls).shut.waiting = _
        rw [hsame]
        exact ⟨hseals, hwait.trans (by simp)⟩

/-- A trace that was closed is kept, whatever is called after the first close, exactly as long as
no group is written. The first group that is takes over the file, which then never gets finished,
since only the first close counts. -/
theorem closed_trace_kept_iff {threshold : Json.Value} (ht : threshold.number? = some n)
    (hn : Number.le (.int 1) n) (s : String) (hc : Call.AreFit cs) (hopen : .close ∉ cs)
    {ls : List Call} (hl : Call.AreFit ls) :
    ∃ r x, make (.text s) threshold = .ok r ∧
      (r.after (cs ++ [.close])).file = .finished x ∧
      x.rows = (Call.poses cs).mapIdx (row (.text s)) ∧
      ((r.after (cs ++ .close :: ls)).file = .finished x ↔ ¬Call.Write n ls) ∧
      (Call.Write n ls → (r.after (cs ++ .close :: ls)).file = .unfinished) := by
  obtain ⟨t, hceil⟩ := Number.exists_ceiling hn
  have hkeeps := keeps_make hceil s
  have hafter := hkeeps.after hceil hc hopen
  obtain ⟨x, hx, hwait, _, _, hrows⟩ := hafter.shut hceil
  obtain ⟨hwrite, hkept⟩ := hx.after hwait hceil hl
  rw [← after_close hafter.sound, ← after_append, ← after_append, List.singleton_append]
    at hwrite hkept
  refine ⟨_, x, make_eq_ok ht hceil.notLess s, ?_, hrows, ⟨fun hfile hwr => ?_, fun hnot => ?_⟩,
    fun hwr => (hwrite hwr).file⟩
  · rw [after_append, after_close hafter.sound]
    exact hx.file
  · rw [(hwrite hwr).file] at hfile
    cases hfile
  · exact (hkept hnot).1.file

/-- A pose after the first close, under a threshold of two, and two more closes. -/
theorem closed_trace_kept_iff_waiting :
    let p := (Stance.start 1).pose Binary64
    Call.AreFit [.record p] ∧
      ∃ r x, make (.text "run") (.int 2) = .ok r ∧
        (r.after [.record p, .close]).file = .finished x ∧
        x.rows = [row (.text "run") 0 p] ∧
        (r.after [.record p, .close, .record p, .close, .close]).file = .finished x := by
  intro p
  have hfit : Call.AreFit [.record p] := by
    intro q hq
    obtain rfl : q = p := by simpa using hq
    rfl
  have hlater : Call.AreFit [.record p, .close, .close] := areFit_closes hfit 2
  have hroom : ¬Call.Write (.int 2) [.record p, .close, .close] := by
    rintro (hfull | ⟨as, bs, heq, _⟩)
    · exact absurd hfull (by decide)
    · have hmem : Call.flush ∈ [.record p, .close, .close] := by
        rw [heq]
        exact List.mem_append_right _ List.mem_cons_self
      simp at hmem
  have hnumber : Json.Value.number? (.int 2) = some (.int 2) := rfl
  obtain ⟨r, x, hmake, hfile, hrows, hkept, _⟩ :=
    closed_trace_kept_iff hnumber (by decide) "run" hfit (by simp) hlater
  exact ⟨hfit, r, x, hmake, hfile, hrows, hkept.mpr hroom⟩

/-- A pose and a flush after the close: the row that was in the file is gone, and no later close
finishes the new file. -/
theorem closed_trace_replaced :
    let p := (Stance.start 1).pose Binary64
    ∃ r, make (.text "run") defaultThreshold = .ok r ∧
      (r.after [.record p, .close]).file =
        .finished ⟨Table.traceColumns, [[row (.text "run") 0 p]]⟩ ∧
      (r.after [.record p, .close, .record p, .flush]).file = .unfinished ∧
      (r.after [.record p, .close, .record p, .flush, .close]).file = .unfinished :=
  ⟨_, rfl, rfl, rfl, rfl⟩

end Trace
end Recorder
end Courier
