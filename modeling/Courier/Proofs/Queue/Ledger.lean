import Mathlib.Data.List.Induction
import Courier.Proofs.Queue.Reachable
import Courier.Proofs.Queue.Spell

namespace Courier

/-- The lines taken, as the announcements tell it. -/
structure Ledger where
  /-- The lines that ended, each with its result unless it was abandoned. -/
  settled : List (Line × Option StepResult)
  current : Option Line

namespace Ledger

def empty : Ledger := ⟨[], none⟩

/-- A line that appears as the current one was taken; one that disappears without a result was
abandoned. -/
def note (l : Ledger) : Event → Ledger
  | .step r =>
    match l.current with
    | some line => ⟨l.settled ++ [(line, some r)], none⟩
    | none => l
  | .state s =>
    match l.current, s.current with
    | none, some line => ⟨l.settled, some line⟩
    | some line, none => ⟨l.settled ++ [(line, none)], none⟩
    | _, _ => l
  | _ => l

def ofEvents (es : List Event) : Ledger := es.foldl note empty

def dispatched (l : Ledger) : List Line := l.settled.map (·.1) ++ l.current.toList

def results (l : Ledger) : List StepResult := l.settled.filterMap (·.2)

theorem ofEvents_append (es fs : List Event) :
    ofEvents (es ++ fs) = fs.foldl note (ofEvents es) := by
  simp [ofEvents, List.foldl_append]

theorem ofEvents_asides {es fs : List Event} (hf : ∀ e ∈ fs, e.IsAside) :
    ofEvents (es ++ fs) = ofEvents es := by
  rw [ofEvents_append]
  generalize ofEvents es = l
  induction fs generalizing l with
  | nil => rfl
  | cons e fs ih =>
    have he := hf e (by simp)
    have hl : l.note e = l := by
      cases e with
      | state s => exact he.elim
      | step r => exact he.elim
      | frame time f => rfl
      | evaluated label => rfl
      | log level text => rfl
    rw [List.foldl_cons, hl]
    exact ih (fun e h => hf e (by simp [h])) l

end Ledger

/-- An element of a list with one more at its end. -/
theorem getElem?_concat {α : Type} {xs : List α} {x y : α} {k : Nat}
    (h : (xs ++ [x])[k]? = some y) : xs[k]? = some y ∨ k = xs.length ∧ x = y := by
  rw [List.getElem?_append] at h
  split at h
  · exact .inl h
  · next hk =>
    obtain ⟨hi, hx⟩ := List.getElem?_eq_some_iff.mp h
    have hk0 : k - xs.length = 0 := by simpa using hi
    refine .inr ⟨by omega, ?_⟩
    simpa [hk0] using hx

/-- The turns that keep the plan: more lines, pauses and resumptions, the clock and the worker. -/
def Turn.IsGentle : Turn → Prop
  | .call (.enqueue _) => True
  | .call .start => True
  | .call .pause => True
  | .call .resume => True
  | .clock _ => True
  | .work => True
  | _ => False

def Turn.enqueued : Turn → List Line
  | .call (.enqueue line) => [line]
  | _ => []

namespace Queue

def enqueued (ts : List Turn) : List Line := ts.flatMap Turn.enqueued

def ledger (q : Queue) : Ledger := .ofEvents q.trace.toList

/-- What the books of a queue are held against. -/
structure Terms where
  lines : List Line
  before : List StepResult
  /-- The lines that an announcement may account for. -/
  Told : List Line → Prop
  /-- The lines that may be abandoned, each with the number of lines before it. -/
  Dropped : Nat → Line → Prop

/-- The books of a queue: every line given is accounted for, in every announcement. -/
structure Books (a : Terms) (q : Queue) : Prop where
  orders : q.orders = []
  honest : q.interpreter.IsHonest
  lines : q.ledger.dispatched ++ q.pending = a.lines
  completed : q.completed.toList = a.before ++ q.ledger.results
  instructions : ∀ line r, (line, some r) ∈ q.ledger.settled →
    Instruction.parse line.plain = .ok r.instruction
  dropped : ∀ k line, q.ledger.settled[k]? = some (line, none) → a.Dropped k line
  current : q.ledger.current = q.current
  told : ∀ es s fs, q.trace.toList = es ++ .state s :: fs →
    a.Told ((Ledger.ofEvents (es ++ [.state s])).dispatched ++ s.pending)

section Books

variable {a : Terms} {q r : Queue}

theorem ledger_asides (h : Asides q.trace r.trace) : r.ledger = q.ledger := by
  obtain ⟨es, he, ht⟩ := h
  rw [ledger, ht, Ledger.ofEvents_asides he]
  rfl

theorem told_asides {P : List Event → Snapshot → Prop} {x y : Array Event}
    (h : ∀ es s fs, x.toList = es ++ .state s :: fs → P es s) (ha : Asides x y) :
    ∀ es s fs, y.toList = es ++ .state s :: fs → P es s := by
  obtain ⟨gs, hg, ht⟩ := ha
  intro es s fs hy
  rw [ht] at hy
  rcases List.append_eq_append_iff.mp hy with ⟨as, hes, hgs⟩ | ⟨as, hx, hfs⟩
  · have hm : Event.state s ∈ gs := by rw [hgs]; simp
    exact (hg _ hm).elim
  · cases as with
    | nil =>
      have hm : Event.state s ∈ gs := by
        rw [List.nil_append] at hfs
        rw [← hfs]
        simp
      exact (hg _ hm).elim
    | cons e as =>
      rw [List.cons_append] at hfs
      cases hfs
      exact h es s as hx

theorem told_push {P : List Event → Snapshot → Prop} {x : Array Event} {e : Event}
    (h : ∀ es s fs, x.toList = es ++ .state s :: fs → P es s)
    (he : ∀ s, e = .state s → P x.toList s) :
    ∀ es s fs, (x.push e).toList = es ++ .state s :: fs → P es s := by
  intro es s fs hy
  rw [Array.toList_push] at hy
  rcases List.append_eq_append_iff.mp hy with ⟨as, hes, hl⟩ | ⟨as, hx, hl⟩
  · cases as with
    | nil =>
      rw [List.nil_append] at hl
      cases hl
      rw [hes, List.append_nil]
      exact he s rfl
    | cons b as => simp at hl
  · cases as with
    | nil =>
      rw [List.nil_append] at hl
      cases hl
      rw [List.append_nil] at hx
      rw [← hx]
      exact he s rfl
    | cons b as =>
      rw [List.cons_append] at hl
      cases hl
      exact h es s as hx

/-- Whatever leaves no announcement and no result leaves the books as they are. -/
theorem Books.asides (h : Books a q) (ho : r.orders = [])
    (hi : r.interpreter.conditions = q.interpreter.conditions) (hp : r.pending = q.pending)
    (hd : r.completed = q.completed) (hc : r.current = q.current) (ht : Asides q.trace r.trace) :
    Books a r where
  orders := ho
  honest := by unfold Interpreter.IsHonest; rw [hi]; exact h.honest
  lines := by rw [ledger_asides ht, hp]; exact h.lines
  completed := by rw [ledger_asides ht, hd]; exact h.completed
  instructions := by rw [ledger_asides ht]; exact h.instructions
  dropped := by rw [ledger_asides ht]; exact h.dropped
  current := by rw [ledger_asides ht, hc]; exact h.current
  told := told_asides h.told ht

theorem ledger_record (q : Queue) (e : Event) : (q.record e).ledger = q.ledger.note e := by
  simp [ledger, record, Ledger.ofEvents, Array.toList_push, List.foldl_append]

/-- An announcement is true to the books if it makes a true entry. -/
theorem told_record (h : Books a q) {s : Snapshot}
    (hs : a.Told ((q.ledger.note (.state s)).dispatched ++ s.pending)) :
    ∀ es t fs, (q.record (.state s)).trace.toList = es ++ .state t :: fs →
      a.Told ((Ledger.ofEvents (es ++ [.state t])).dispatched ++ t.pending) := by
  refine told_push h.told ?_
  intro t ht
  cases ht
  have hl := ledger_record q (.state s)
  rw [ledger, record, Array.toList_push] at hl
  rw [hl]
  exact hs

/-- An announcement of the same line tells nothing new. -/
theorem Books.note_state (h : Books a q) {s : Snapshot} (hc : s.current = q.current) :
    q.ledger.note (.state s) = q.ledger := by
  simp only [Ledger.note]
  rw [h.current, hc]
  cases q.current <;> rfl

theorem Books.announced (h : Books a q) (ht : a.Told a.lines) {s : Snapshot}
    (hp : s.pending = q.pending) (hc : s.current = q.current) : Books a (q.record (.state s)) := by
  have hn := h.note_state hc
  refine ⟨h.orders, h.honest, ?_, ?_, ?_, ?_, ?_, told_record h ?_⟩
  · rw [ledger_record, hn]; exact h.lines
  · rw [ledger_record, hn]; exact h.completed
  · rw [ledger_record, hn]; exact h.instructions
  · rw [ledger_record, hn]; exact h.dropped
  · rw [ledger_record, hn]; exact h.current
  · rw [hn, hp, h.lines]; exact ht

theorem books_dispatch (h : Books a q) (ht : a.Told a.lines) {line : Line} {pending : List Line}
    (hc : q.current = none) (hp : q.pending = line :: pending) :
    Books a (q.dispatch line pending) := by
  have hl : q.ledger.current = none := h.current.trans hc
  let s : Snapshot := ⟨pending, some line, q.status⟩
  have hn : q.ledger.note (.state s) = ⟨q.ledger.settled, some line⟩ := by
    simp only [Ledger.note, hl, s]
  have hd : (Ledger.mk q.ledger.settled (some line)).dispatched ++ pending = a.lines := by
    have hlines := h.lines
    rw [hp] at hlines
    simpa [Ledger.dispatched, hl] using hlines
  have hrec := ledger_record q (.state s)
  rw [hn] at hrec
  rw [dispatch_quiet h.orders]
  have hq : ({ q with
      pending, token := some .fresh, current := some line
      trace := q.trace.push (.state s) } : Queue).ledger = ⟨q.ledger.settled, some line⟩ := hrec
  refine ⟨h.orders, h.honest, ?_, ?_, ?_, ?_, ?_, told_record h ?_⟩
  · rw [hq]; exact hd
  · rw [hq]; exact h.completed
  · rw [hq]; exact h.instructions
  · rw [hq]; exact h.dropped
  · rw [hq]
  · rw [hn]
    change a.Told ((Ledger.mk q.ledger.settled (some line)).dispatched ++ pending)
    rw [hd]
    exact ht

/-- The line in execution ends, with a result or without one. -/
theorem Books.settled (h : Books a q) {line : Line} {o : Option StepResult}
    (hc : q.current = some line) (ho : r.orders = [])
    (hi : r.interpreter.conditions = q.interpreter.conditions) (hp : r.pending = q.pending)
    (hcur : r.current = none) (hd : r.completed.toList = q.completed.toList ++ o.toList)
    (hl : r.ledger = ⟨q.ledger.settled ++ [(line, o)], none⟩)
    (hs : ∀ s, o = some s → Instruction.parse line.plain = .ok s.instruction)
    (hn : o = none → a.Dropped q.ledger.settled.length line)
    (ht : ∀ es s fs, r.trace.toList = es ++ .state s :: fs →
      a.Told ((Ledger.ofEvents (es ++ [.state s])).dispatched ++ s.pending)) : Books a r where
  orders := ho
  honest := by unfold Interpreter.IsHonest; rw [hi]; exact h.honest
  lines := by
    have hlines := h.lines
    have hcl : q.ledger.current = some line := h.current.trans hc
    rw [hl, hp]
    simpa [Ledger.dispatched, hcl] using hlines
  completed := by
    rw [hl, hd, h.completed]
    cases o <;> simp [Ledger.results]
  instructions := by
    rw [hl]
    intro l s hm
    rcases List.mem_append.mp hm with hm | hm
    · exact h.instructions l s hm
    · simp only [List.mem_singleton, Prod.mk.injEq] at hm
      rw [hm.1]
      exact hs s hm.2.symm
  dropped := by
    rw [hl]
    intro k l hk
    rcases getElem?_concat hk with hk | ⟨hlast, hlo⟩
    · exact h.dropped k l hk
    · cases hlo
      rw [hlast]
      exact hn rfl
  current := by rw [hl, hcur]
  told := ht

theorem books_complete (h : Books a q) (ht : a.Told a.lines) {line : Line} {s : StepResult}
    (hc : q.current = some line) (hi : Instruction.parse line.plain = .ok s.instruction) :
    Books a (q.complete s) := by
  have hl : q.ledger.current = some line := h.current.trans hc
  have hn : q.ledger.note (.step s) = ⟨q.ledger.settled ++ [(line, some s)], none⟩ := by
    simp only [Ledger.note, hl]
  let r : Queue := { q with
    token := none, current := none
    completed := q.completed.push s, trace := q.trace.push (.step s) }
  have hr : r.ledger = ⟨q.ledger.settled ++ [(line, some s)], none⟩ := by
    rw [← hn, ← ledger_record]
    rfl
  have hb : Books a r := by
    refine h.settled hc h.orders rfl rfl rfl (by simp [r]) hr ?_ (by simp) ?_
    · intro t ht
      cases ht
      exact hi
    · exact told_push h.told (by simp)
  rw [complete_quiet h.orders]
  exact hb.announced ht (s := ⟨q.pending, none, q.status⟩) rfl rfl

/-- The current line, if there is one, is abandoned. -/
theorem books_abandon (h : Books a q) (ht : a.Told a.lines) (line : Line)
    (hd : ∀ l, q.current = some l → a.Dropped q.ledger.settled.length l) :
    Books a (q.abandon line) := by
  obtain ⟨x, hx, he⟩ := abandon_quiet h.orders line
  have hq : Books a ({ q with trace := x } : Queue) := h.asides h.orders rfl rfl rfl rfl hx
  rw [he]
  cases hc : q.current with
  | none =>
    have hn : Books a ({ q with token := none, current := none, trace := x } : Queue) :=
      h.asides h.orders rfl rfl rfl hc.symm hx
    exact hn.announced ht (s := ⟨q.pending, none, q.status⟩) rfl rfl
  | some l =>
    let s : Snapshot := ⟨q.pending, none, q.status⟩
    have hx' : ({ q with trace := x } : Queue).ledger = q.ledger := ledger_asides hx
    have hl : q.ledger.current = some l := h.current.trans hc
    have hn : q.ledger.note (.state s) = ⟨q.ledger.settled ++ [(l, none)], none⟩ := by
      simp only [Ledger.note, hl, s]
    let r : Queue := { q with token := none, current := none, trace := x.push (.state s) }
    have hr : r.ledger = ⟨q.ledger.settled ++ [(l, none)], none⟩ := by
      rw [← hn, ← hx', ← ledger_record]
      rfl
    have hlines : r.ledger.dispatched ++ q.pending = a.lines := by
      have hlines := h.lines
      rw [hr]
      simpa [Ledger.dispatched, hl] using hlines
    change Books a r
    refine h.settled hc h.orders rfl rfl rfl (by simp [r]) hr (by simp) (fun _ => hd l hc)
      (told_record hq ?_)
    have hrl : ({ q with trace := x } : Queue).ledger.note (.state s) = r.ledger := by
      rw [hx', hn, hr]
    rw [hrl, hlines]
    exact ht

/-- A queue between two lines. -/
def IsBetween (q : Queue) : Prop := q.token = none ∧ q.current = none

/-- The worker between two turns, with the line in execution and its token. -/
def Waits (a : Terms) (q : Queue) : Prop :=
  match q.worker with
  | .absent => q.token = none ∧ (q.current = none ∨ q.status = .error ∧ q.fault.isSome)
  | .fresh => q.IsBetween
  | .busy => False
  | .asleep line i _ _ => ∃ token, q.token = some token ∧
      (q.current = none ∧ token.isCancelled ∨ q.current = some line ∧
        Instruction.parse line.plain = .ok i ∧
        (token.isCancelled → a.Dropped q.ledger.settled.length line))

/-- Between two turns the current line is the one that the worker sleeps in, or it failed. -/
theorem Waits.of_current (h : Waits a q) {line : Line} (hc : q.current = some line) :
    (∃ i job wake, q.worker = .asleep line i job wake) ∨ q.status = .error ∧ q.fault.isSome := by
  unfold Waits at h
  cases hw : q.worker with
  | absent =>
    rw [hw] at h
    rcases h.2 with hn | he
    · rw [hc] at hn
      cases hn
    · exact .inr he
  | fresh =>
    rw [hw] at h
    have hn := h.2
    rw [hc] at hn
    cases hn
  | busy => rw [hw] at h; exact h.elim
  | asleep l i job wake =>
    rw [hw] at h
    obtain ⟨token, _, hn | ⟨hl, _⟩⟩ := h
    · rw [hc] at hn
      cases hn.1
    · rw [hc] at hl
      cases hl
      exact .inl ⟨i, job, wake, rfl⟩

/-- The books after an operation of the worker, and whether it goes on. -/
structure Keeps (a : Terms) (r : Queue × Bool) : Prop where
  books : Books a r.1
  goes : r.2 = true → r.1.IsBetween
  waits : r.2 = false → Waits a r.1

theorem keeps_fail (h : Books a q) (ht : a.Told a.lines) (line : Line) {f : Fault}
    (hf : ∀ reason, f ≠ .cancelled reason) : Keeps a (q.stumble line f) := by
  obtain ⟨x, hx, he⟩ := stumble_quiet h.orders line hf
  have hq : Books a ({ q with
      fault := some f, status := .error, settled := true, token := none, worker := .absent
      trace := x } : Queue) :=
    h.asides h.orders rfl rfl rfl rfl hx
  rw [he]
  refine ⟨hq.announced ht (s := ⟨q.pending, q.current, .error⟩) rfl rfl, by simp, ?_⟩
  intro _
  exact ⟨rfl, .inr ⟨rfl, rfl⟩⟩

theorem keeps_enact (h : Books a q) (ht : a.Told a.lines) {line : Line} {token : Token} {sp : Spell}
    (hc : q.current = some line) (hk : q.token = some token) (hn : token.isCancelled = false)
    (hm : sp.Minds (Instruction.parse line.plain)) : Keeps a (q.enact line sp) := by
  obtain ⟨n, x, hx, he⟩ := perform_quiet h.orders sp
  have hq : Books a (q.perform sp) := by
    rw [he]
    exact h.asides h.orders rfl rfl rfl rfl hx
  have hcq : (q.perform sp).current = some line := by rw [he]; exact hc
  have hkq : (q.perform sp).token = some token := by rw [he]; exact hk
  have hm := hm.upshot
  unfold enact
  unfold Upshot.Minds at hm
  cases hu : sp.upshot with
  | pause seconds i job =>
    rw [hu] at hm
    refine ⟨hq.asides hq.orders rfl rfl rfl rfl (.refl _), by simp, ?_⟩
    intro _
    exact ⟨token, hkq, .inr ⟨hcq, hm, fun hcan => by rw [hn] at hcan; cases hcan⟩⟩
  | result r =>
    rw [hu] at hm
    refine ⟨books_complete hq ht hcq hm, ?_, by simp⟩
    intro _
    change ((q.perform sp).complete r).IsBetween
    rw [complete_quiet hq.orders]
    exact ⟨rfl, rfl⟩
  | fault f =>
    rw [hu] at hm
    exact keeps_fail hq ht line hm

theorem keeps_execute (h : Books a q) (ht : a.Told a.lines) {line : Line}
    (hc : q.current = some line) (hk : q.token = some .fresh) : Keeps a (q.execute line) := by
  rw [execute_eq h.orders hk]
  obtain ⟨x, hx, he⟩ := heed_quiet (q := q) (Spell.opening q.interpreter q.engine line)
  rw [he]
  have hq : Books a ({ q with trace := x } : Queue) := h.asides h.orders rfl rfl rfl rfl hx
  have hm := Spell.first_minds h.honest q.engine line
  exact keeps_enact hq ht hc hk rfl hm

theorem waits_absent (h : Books a q) (hb : q.IsBetween) :
    Books a ({ q with worker := .absent } : Queue) ∧
      Waits a ({ q with worker := .absent } : Queue) :=
  ⟨h.asides h.orders rfl rfl rfl rfl (.refl _), hb.1, .inl hb.2⟩

theorem books_finish (h : Books a q) (ht : a.Told a.lines) (hb : q.IsBetween) :
    Books a q.finish ∧ Waits a q.finish := by
  rcases finish_quiet h.orders with ⟨f, x, _, hx, he⟩ | ⟨x, _, hx, he⟩
  · have hq : Books a ({ q with
        fault := some f, status := .error, settled := true, token := none, worker := .absent
        trace := x } : Queue) := h.asides h.orders rfl rfl rfl rfl hx
    rw [he]
    exact ⟨hq.announced ht (s := ⟨q.pending, q.current, .error⟩) rfl rfl, rfl, .inl hb.2⟩
  · have hq : Books a ({ q with
        status := .idle, settled := true, worker := .absent, trace := x } : Queue) :=
      h.asides h.orders rfl rfl rfl rfl hx
    rw [he]
    exact ⟨hq.announced ht (s := ⟨q.pending, q.current, .idle⟩) rfl rfl, hb.1, .inl hb.2⟩

/-- Lines are taken one after another. -/
theorem books_takeAll (h : Books a q) (ht : a.Told a.lines) (hb : q.IsBetween) :
    Books a q.takeAll ∧ Waits a q.takeAll := by
  unfold takeAll
  refine takeLines_induction (I := fun q => Books a q ∧ q.IsBetween)
    (P := fun q => Books a q ∧ Waits a q) (fun q hq => hq.1.orders)
    (fun q hq _ => waits_absent hq.1 hq.2) (fun q hq _ _ => books_finish hq.1 ht hq.2) ?_
    ⟨h, hb⟩ (by rw [backlog_quiet h.orders]; exact Nat.lt_succ_self _)
  intro q line pending hq _ hp r
  have hd := books_dispatch hq.1 ht hq.2.2 hp
  have he := dispatch_quiet hq.1.orders line pending
  have hx : Keeps a ((q.dispatch line pending).execute line) :=
    keeps_execute hd ht (by rw [he]) (by rw [he])
  constructor
  · intro hr
    rw [hr] at hx
    exact ⟨hx.books, hx.goes rfl⟩
  · intro hr
    rw [hr] at hx
    exact ⟨hx.books, hx.waits rfl⟩

theorem keeps_wakeUp (h : Books a q) (ht : a.Told a.lines) {line : Line} {i : Instruction}
    {token : Token} (hk : q.token = some token)
    (hc : q.current = none ∧ token.isCancelled ∨ q.current = some line ∧
      Instruction.parse line.plain = .ok i ∧
      (token.isCancelled → a.Dropped q.ledger.settled.length line)) (job : Job) :
    Keeps a (q.wakeUp line i job) := by
  by_cases hcan : token.isCancelled
  · rw [wakeUp_cancelled hk hcan]
    obtain ⟨n, x, hx, he⟩ := applyAll_quiet h.orders
      (if job.showsCommitted then [.publish (.still q.engine.committed)] else [])
    rw [he]
    have hq := h.asides (r := { q with
      engine := q.engine.applyAll (if job.showsCommitted then
        [.publish (.still q.engine.committed)] else [])
      frames := n, trace := x }) h.orders rfl rfl rfl rfl hx
    refine ⟨books_abandon hq ht line ?_, ?_, by simp⟩
    · intro l hl
      rcases hc with ⟨hc, _⟩ | ⟨hc, _, hd⟩
      · rw [hc] at hl
        cases hl
      · rw [hc] at hl
        cases hl
        rw [ledger_asides hx]
        exact hd hcan
    · intro _
      obtain ⟨y, _, hy⟩ := abandon_quiet hq.orders line
      dsimp only
      rw [hy]
      exact ⟨rfl, rfl⟩
  · have hn : token.isCancelled = false := by simpa using hcan
    obtain ⟨hcur, hp⟩ : q.current = some line ∧ Instruction.parse line.plain = .ok i := by
      rcases hc with ⟨_, hcan⟩ | ⟨hc, hp, _⟩
      · rw [hn] at hcan
        cases hcan
      · exact ⟨hc, hp⟩
    have hcheck : q.tokenCheck = .ok () := by
      rw [tokenCheck_some hk]
      unfold Token.isCancelled at hn
      simp [Token.check, Option.isSome_eq_false_iff.mp hn |> Option.isNone_iff_eq_none.mp]
    rw [wakeUp_eq h.orders hcheck]
    have hm := Spell.next_minds q.interpreter q.engine i job
    rw [← hp] at hm
    exact keeps_enact h ht hcur hk hn hm

theorem books_work (h : Books a q) (ht : a.Told a.lines) (hw : Waits a q) :
    Books a q.work ∧ Waits a q.work := by
  have hq : Books a ({ q with worker := .busy } : Queue) :=
    h.asides h.orders rfl rfl rfl rfl (.refl _)
  have hwaits := hw
  unfold Waits at hw
  cases hworker : q.worker with
  | absent => rw [work_idle (.inl hworker)]; exact ⟨h, hwaits⟩
  | busy => rw [hworker] at hw; exact hw.elim
  | fresh =>
    rw [hworker] at hw
    rw [work_fresh hworker]
    exact books_takeAll hq ht hw
  | asleep line i job wake =>
    rw [hworker] at hw
    obtain ⟨token, hk, hc⟩ := hw
    have hx := keeps_wakeUp hq ht hk hc job
    rw [work_asleep hworker]
    split
    · next hg => exact books_takeAll hx.books ht (hx.goes hg)
    · next hg => exact ⟨hx.books, hx.waits (by simpa using hg)⟩

theorem Books.weaken {b : Terms} (h : Books a q) (hl : b.lines = a.lines)
    (hb : b.before = a.before) (ht : ∀ l, a.Told l → b.Told l)
    (hd : ∀ k l, a.Dropped k l → b.Dropped k l) : Books b q where
  orders := h.orders
  honest := h.honest
  lines := h.lines.trans hl.symm
  completed := by rw [hb]; exact h.completed
  instructions := h.instructions
  dropped k line hk := hd k line (h.dropped k line hk)
  current := h.current
  told es s fs hs := ht _ (h.told es s fs hs)

theorem Waits.weaken {b : Terms} (h : Waits a q) (hd : ∀ k l, a.Dropped k l → b.Dropped k l) :
    Waits b q := by
  unfold Waits at h ⊢
  cases hw : q.worker with
  | absent => rw [hw] at h; exact h
  | fresh => rw [hw] at h; exact h
  | busy => rw [hw] at h; exact h
  | asleep line i job wake =>
    rw [hw] at h
    obtain ⟨token, hk, hc⟩ := h
    refine ⟨token, hk, ?_⟩
    rcases hc with hc | ⟨hc, hp, hcan⟩
    · exact .inl hc
    · exact .inr ⟨hc, hp, fun h => hd _ _ (hcan h)⟩

theorem books_become (h : Books a q) (ht : a.Told a.lines) (answer : Call → Queue → Queue)
    (status : Status) : Books a (q.become answer status) := by
  obtain ⟨x, hx, he⟩ := become_quiet h.orders answer status
  have hq : Books a ({ q with status, settled := status ≠ .running, trace := x } : Queue) :=
    h.asides h.orders rfl rfl rfl rfl hx
  rw [he]
  exact hq.announced ht (s := ⟨q.pending, q.current, status⟩) rfl rfl

theorem waits_become (h : Books a q) (hw : Waits a q) (hs : q.status = .error → q.current = none)
    (answer : Call → Queue → Queue) (status : Status) : Waits a (q.become answer status) := by
  obtain ⟨x, hx, he⟩ := become_quiet h.orders answer status
  have hl : (q.become answer status).ledger = q.ledger := by
    have hq : Books a ({ q with status, settled := status ≠ .running, trace := x } : Queue) :=
      h.asides h.orders rfl rfl rfl rfl hx
    have hn := hq.note_state (s := ⟨q.pending, q.current, status⟩) rfl
    rw [← ledger_record,
      ledger_asides (r := { q with status, settled := status ≠ .running, trace := x }) hx] at hn
    rw [he]
    exact hn
  unfold Waits at hw ⊢
  rw [hl]
  rw [he]
  dsimp only
  cases hworker : q.worker with
  | absent =>
    rw [hworker] at hw
    rcases hw with ⟨hk, hc | ⟨hc, _⟩⟩
    · exact ⟨hk, .inl hc⟩
    · exact ⟨hk, .inl (hs hc)⟩
  | fresh => rw [hworker] at hw; exact hw
  | busy => rw [hworker] at hw; exact hw
  | asleep line i job wake => rw [hworker] at hw; exact hw

theorem books_kick (h : Books a q) : Books a q.kick := by
  unfold kick
  split
  · exact h.asides h.orders rfl rfl rfl rfl (.refl _)
  · exact h

theorem waits_kick (hw : Waits a q) : Waits a q.kick := by
  unfold kick
  split
  · next hs ha =>
    unfold Waits at hw ⊢
    rw [ha] at hw
    rcases hw with ⟨hk, hc | ⟨hc, _⟩⟩
    · exact ⟨hk, hc⟩
    · rw [hs] at hc
      cases hc
  · exact hw

theorem books_enqueue {b : Terms} {line : Line} (h : Books a q) (hl : b.lines = a.lines ++ [line])
    (hb : b.before = a.before) (ht : ∀ l, a.Told l → b.Told l) (hn : b.Told b.lines)
    (hd : ∀ k l, a.Dropped k l → b.Dropped k l) (answer : Call → Queue → Queue) :
    Books b (({ q with pending := q.pending ++ [line] } : Queue).announce answer) := by
  have hq : Books b ({ q with pending := q.pending ++ [line] } : Queue) := by
    refine ⟨h.orders, h.honest, ?_, ?_, h.instructions, ?_, h.current, ?_⟩
    · rw [hl, ← h.lines, List.append_assoc]
      rfl
    · rw [hb]
      exact h.completed
    · intro k l hk
      exact hd k l (h.dropped k l hk)
    · intro es s fs hs
      exact ht _ (h.told es s fs hs)
  rw [announce_quiet hq.orders]
  exact hq.announced hn rfl rfl

theorem waits_enqueue (h : Books a q) (hw : Waits a q) (answer : Call → Queue → Queue)
    (line : Line) :
    Waits a (({ q with pending := q.pending ++ [line] } : Queue).announce answer) := by
  have hq : ({ q with pending := q.pending ++ [line] } : Queue).orders = [] := h.orders
  rw [announce_quiet hq]
  have hn := h.note_state (s := ⟨q.pending ++ [line], q.current, q.status⟩) rfl
  rw [← ledger_record] at hn
  unfold Waits at hw ⊢
  dsimp only [record]
  cases hworker : q.worker with
  | absent => rw [hworker] at hw; exact hw
  | fresh => rw [hworker] at hw; exact hw
  | busy => rw [hworker] at hw; exact hw
  | asleep i j job wake =>
    rw [hworker] at hw
    obtain ⟨token, hk, hc⟩ := hw
    refine ⟨token, hk, ?_⟩
    rcases hc with hc | ⟨hc, hp, hd⟩
    · exact .inl hc
    · refine .inr ⟨hc, hp, ?_⟩
      intro hcan
      have hdrop := hd hcan
      rw [← hn] at hdrop
      exact hdrop

/-- A pause cancels the line in execution, which may be abandoned from now on. -/
theorem waits_pause (hw : Waits a q) (reason : String)
    (hd : ∀ line, q.current = some line → a.Dropped q.ledger.settled.length line) :
    Waits a (q.cancelInFlight reason) := by
  unfold Waits cancelInFlight at *
  dsimp only
  cases hworker : q.worker with
  | absent => rw [hworker] at hw; exact ⟨by rw [hw.1]; rfl, hw.2⟩
  | fresh => rw [hworker] at hw; exact ⟨by dsimp only; rw [hw.1]; rfl, hw.2⟩
  | busy => rw [hworker] at hw; exact hw
  | asleep line i job wake =>
    rw [hworker] at hw
    obtain ⟨token, hk, hc⟩ := hw
    have hcan := token.isCancelled_cancel (.text reason)
    refine ⟨token.cancel (.text reason), by rw [hk]; rfl, ?_⟩
    rcases hc with ⟨hc, _⟩ | ⟨hc, hp, _⟩
    · exact .inl ⟨hc, hcan⟩
    · exact .inr ⟨hc, hp, fun _ => hd line hc⟩

theorem books_pause (h : Books a q) (ht : a.Told a.lines) (hw : Waits a q)
    (hs : q.status = .running)
    (hd : ∀ line, q.current = some line → a.Dropped q.ledger.settled.length line)
    (answer : Call → Queue → Queue) :
    Books a ((q.cancelInFlight "paused").become answer .paused) ∧
      Waits a ((q.cancelInFlight "paused").become answer .paused) := by
  have hq : Books a (q.cancelInFlight "paused") := h.asides h.orders rfl rfl rfl rfl (.refl _)
  have hwq : Waits a (q.cancelInFlight "paused") := waits_pause hw "paused" hd
  have hrun : (q.cancelInFlight "paused").status = .running := hs
  exact ⟨books_become hq ht answer .paused, waits_become hq hwq (by simp [hrun]) answer .paused⟩

theorem books_restart (h : Books a q) (ht : a.Told a.lines) (hw : Waits a q)
    (hs : q.status = .error → q.current = none) (answer : Call → Queue → Queue)
    (status : Status) :
    Books a (q.become answer status).kick ∧ Waits a (q.become answer status).kick :=
  ⟨books_kick (books_become h ht answer status), waits_kick (waits_become h hw hs answer status)⟩

end Books

/-- The terms of a run of some lines, `p` being the queue right after the call, when some turns have
passed. -/
def runTerms (p : Queue) (before : List StepResult) (lines : List Line) (ts : List Turn) :
    Terms where
  lines := lines ++ enqueued ts
  before
  Told l := ∃ us, us <+: ts ∧ l = lines ++ enqueued us
  Dropped k line := ∃ us vs, ts = us ++ .call .pause :: vs ∧ (p.after us).status = .running ∧
    (p.after us).current = some line ∧ (p.after us).ledger.settled.length = k

section Run

variable {p : Queue} {before : List StepResult} {lines : List Line} {ts : List Turn}

theorem told_runTerms : (runTerms p before lines ts).Told (runTerms p before lines ts).lines :=
  ⟨ts, List.prefix_rfl, rfl⟩

theorem told_later (t : Turn) (l : List Line) (h : (runTerms p before lines ts).Told l) :
    (runTerms p before lines (ts ++ [t])).Told l := by
  obtain ⟨us, hu, hl⟩ := h
  exact ⟨us, hu.trans (List.prefix_append ts [t]), hl⟩

theorem dropped_later (t : Turn) (k : Nat) (line : Line)
    (h : (runTerms p before lines ts).Dropped k line) :
    (runTerms p before lines (ts ++ [t])).Dropped k line := by
  obtain ⟨us, vs, ht, hr⟩ := h
  exact ⟨us, vs ++ [t], by rw [ht]; simp, hr⟩

theorem books_turn {t : Turn} (ht : t.IsGentle)
    (h : Books (runTerms p before lines ts) (p.after ts))
    (hw : Waits (runTerms p before lines ts) (p.after ts)) :
    Books (runTerms p before lines (ts ++ [t])) ((p.after ts).turn t) ∧
      Waits (runTerms p before lines (ts ++ [t])) ((p.after ts).turn t) := by
  let b := runTerms p before lines (ts ++ [t])
  have hd := @dropped_later p before lines ts t
  have htold : b.Told b.lines := told_runTerms
  by_cases he : ∃ line, t = .call (.enqueue line)
  · obtain ⟨line, rfl⟩ := he
    have hl : b.lines = (runTerms p before lines ts).lines ++ [line] := by
      simp [b, runTerms, enqueued, Turn.enqueued]
    rw [turn, call_quiet h.orders]
    exact ⟨books_kick (books_enqueue h hl rfl (told_later _) htold hd _),
      waits_kick ((waits_enqueue h hw _ line).weaken hd)⟩
  · have hn : t.enqueued = [] := by
      unfold Turn.enqueued
      split
      · exact absurd ⟨_, rfl⟩ he
      · rfl
    have hl : b.lines = (runTerms p before lines ts).lines := by
      simp [b, runTerms, enqueued, hn]
    have hb : Books b (p.after ts) := h.weaken hl rfl (told_later t) hd
    have hwb : Waits b (p.after ts) := hw.weaken hd
    cases t with
    | call c =>
      rw [turn, call_quiet h.orders]
      cases c with
      | run _ => exact ht.elim
      | setQueue _ => exact ht.elim
      | stop => exact ht.elim
      | enqueue line => exact absurd ⟨line, rfl⟩ he
      | start =>
        simp only [callVia]
        split
        · next hs => exact books_restart hb htold hwb (by simp [hs]) _ _
        · next hs => exact books_restart hb htold hwb (by simp [hs]) _ _
        · exact ⟨hb, hwb⟩
      | resume =>
        simp only [callVia]
        split
        · next hs => exact books_restart hb htold hwb (by simp [hs]) _ _
        · exact ⟨hb, hwb⟩
      | pause =>
        simp only [callVia]
        split
        · next hs =>
          exact books_pause hb htold hwb hs (fun line hc => ⟨ts, [], rfl, hs, hc, rfl⟩) _
        · exact ⟨hb, hwb⟩
    | clock time => exact ⟨hb.asides hb.orders rfl rfl rfl rfl (.refl _), hwb⟩
    | work => exact books_work hb htold hwb
    | given _ _ => exact ht.elim
    | leave _ => exact ht.elim
    | register _ _ => exact ht.elim
    | reset _ => exact ht.elim

theorem books_after
    (h : Books (runTerms p before lines []) p ∧ Waits (runTerms p before lines []) p)
    (ht : ∀ t ∈ ts, t.IsGentle) :
    Books (runTerms p before lines ts) (p.after ts) ∧
      Waits (runTerms p before lines ts) (p.after ts) := by
  induction ts using List.reverseRecOn with
  | nil => exact h
  | append_singleton ts t ih =>
    obtain ⟨hb, hw⟩ := ih (fun u hu => ht u (by simp [hu]))
    rw [after_append]
    exact books_turn (ht t (by simp)) hb hw

/-- A run opens new books, with nothing taken yet. -/
theorem books_run {q : Queue} {w : World} {k : Realm w} (hq : Sane k q) (ho : q.orders = [])
    (hc : q.interpreter.IsHonest) (p : Queue) (lines : List Line) :
    Books (runTerms p q.completed.toList lines []) (q.clearTrace.call (.run lines)) ∧
      Waits (runTerms p q.completed.toList lines []) (q.clearTrace.call (.run lines)) := by
  let r : Queue := { q.clearTrace.cancelInFlight runReason with
    pending := lines, current := none, fault := none, interpreter := q.interpreter.reset }
  have hb : Books (runTerms p q.completed.toList lines []) r := by
    refine ⟨ho, hc, (List.append_nil lines).symm, ?_, ?_, ?_, rfl, ?_⟩
    · simp [r, runTerms, ledger, cancelInFlight, clearTrace, Ledger.ofEvents, Ledger.empty,
        Ledger.results]
    · intro line s hm
      cases hm
    · intro k line hk
      cases hk
    · intro es s fs hs
      simp [r, cancelInFlight, clearTrace] at hs
  have hw : Waits (runTerms p q.completed.toList lines []) r := by
    have hr := hq.rests
    unfold Rests at hr
    unfold Waits
    dsimp only [r, cancelInFlight, clearTrace]
    cases hworker : q.worker with
    | absent => rw [hworker] at hr; exact ⟨by rw [hr]; rfl, .inl rfl⟩
    | fresh => rw [hworker] at hr; exact ⟨by dsimp only; rw [hr]; rfl, rfl⟩
    | busy => rw [hworker] at hr; exact hr
    | asleep line i job wake =>
      rw [hworker] at hr
      obtain ⟨token, hk⟩ := Option.isSome_iff_exists.mp hr.1
      refine ⟨token.cancel (.text runReason), by rw [hk]; rfl, .inl ⟨rfl, ?_⟩⟩
      exact Token.isCancelled_cancel token _
  rw [call_quiet (by exact ho)]
  exact books_restart hb told_runTerms hw (fun _ => rfl) _ _

end Run

/-- Exactly once and in order: what a run was given, and the lines that came later, are taken one
after another; each one taken is in execution, completed with one result, the failed one, or was
abandoned because a pause met it. At every announcement the lines taken so far and those pending
are the lines given so far. The conditions are taken to be honest: one that fails by saying that the
line was cancelled has the line abandoned, though no pause met it. The conditions that every
interpreter begins with are honest (`Interpreter.make_isHonest`). -/
theorem run_takes_each_line_once {q : Queue} (hq : Reachable q) (ho : q.orders = [])
    (hc : q.interpreter.IsHonest) (lines : List Line) {ts : List Turn}
    (ht : ∀ t ∈ ts, t.IsGentle) :
    let p := q.clearTrace.call (.run lines)
    let r := p.after ts
    r.ledger.dispatched ++ r.pending = lines ++ enqueued ts ∧
    (∀ es s fs, r.trace.toList = es ++ .state s :: fs → ∃ us, us <+: ts ∧
      (Ledger.ofEvents (es ++ [.state s])).dispatched ++ s.pending = lines ++ enqueued us) ∧
    r.completed.toList = q.completed.toList ++ r.ledger.results ∧
    (∀ line s, (line, some s) ∈ r.ledger.settled →
      Instruction.parse line.plain = .ok s.instruction) ∧
    r.ledger.current = r.current ∧
    (∀ line, r.current = some line →
      (∃ i job wake, r.worker = .asleep line i job wake) ∨ r.status = .error ∧ r.fault.isSome) ∧
    (∀ k line, r.ledger.settled[k]? = some (line, none) → ∃ us vs,
      ts = us ++ .call .pause :: vs ∧ (p.after us).status = .running ∧
      (p.after us).current = some line ∧ (p.after us).ledger.settled.length = k) := by
  intro p r
  obtain ⟨hb, hw⟩ := books_after (books_run hq.sane ho hc p lines) ht
  refine ⟨hb.lines, ?_, hb.completed, hb.instructions, hb.current, ?_, hb.dropped⟩
  · intro es s fs hs
    exact hb.told es s fs hs
  · intro line hline
    exact hw.of_current hline

/-- A line that is paused, then another one. -/
theorem run_takes_each_line_once_corridor :
    let p := (make (.make .standard []) .corridor).clearTrace.call (.run [.text "TURN_LEFT"])
    let r := p.after [.work, .call .pause, .call (.enqueue (.text "PICKUP")), .call .resume, .work]
    r.ledger.dispatched ++ r.pending = [.text "TURN_LEFT", .text "PICKUP"] :=
  (run_takes_each_line_once (reachable_corridor _) rfl (Interpreter.make_isHonest _) _
    (by simp [Turn.IsGentle])).1

end Queue

end Courier
