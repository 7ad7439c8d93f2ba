import Courier.Proofs.Queue.Passage
import Courier.Proofs.Queue.Posture

namespace Courier

/-- How a line changes the number of open branches. -/
def Line.weight (line : Line) : Int :=
  match Instruction.parse line.plain with
  | .ok i =>
    match i.command with
    | .branch _ => 1
    | .endBranch => -1
    | _ => 0
  | .error _ => 0

/-- How lines together change the number of open branches. -/
def Line.weigh : List Line → Int
  | [] => 0
  | line :: rest => line.weight + weigh rest

/-- Lines that can be read, in balance, with conditions from a table that do not fail in a world. -/
structure Line.AreSure (w : World) (table : List (String × Condition)) (lines : List Line) :
    Prop where
  read : ∀ line ∈ lines, ∃ i, Instruction.parse line.plain = .ok i
  known : ∀ line ∈ lines, ∀ i name, Instruction.parse line.plain = .ok i →
    i.command = .branch name → ∃ c, Json.lookup table name = some c ∧
      ∀ s : Stance, ∃ value, c.test (.ofStance w s) = .ok value
  opened : ∀ k ≤ lines.length, 0 ≤ weigh (lines.take k)
  closed : weigh lines = 0

/-- A line that has been announced and has not begun. -/
def Phase.announced : Phase → List Line
  | .executing line => [line]
  | _ => []

section Weight

variable {line : Line} {lines : List Line} {i : Instruction}

theorem Line.weigh_append (xs ys : List Line) : weigh (xs ++ ys) = weigh xs + weigh ys := by
  induction xs with
  | nil => simp [weigh]
  | cons line rest ih =>
    rw [List.cons_append, weigh, weigh, ih]
    omega

theorem Line.weigh_singleton (line : Line) : weigh [line] = line.weight := by
  simp [weigh]

theorem Line.weight_of_body (hp : Instruction.parse line.plain = .ok i)
    (hc : i.command.opcode.isControl = false) : line.weight = 0 := by
  unfold weight
  rw [hp]
  dsimp only
  cases h : i.command with
  | branch name => rw [h] at hc; cases hc
  | endBranch => rw [h] at hc; cases hc
  | _ => rfl

theorem Line.weight_of_branch (hp : Instruction.parse line.plain = .ok i) {name : String}
    (hc : i.command = .branch name) : line.weight = 1 := by
  unfold weight
  rw [hp]
  dsimp only
  rw [hc]

theorem Line.weight_of_endBranch (hp : Instruction.parse line.plain = .ok i)
    (hc : i.command = .endBranch) : line.weight = -1 := by
  unfold weight
  rw [hp]
  dsimp only
  rw [hc]

/-- No part of balanced lines closes more than it opens. -/
theorem Line.AreSure.weigh_nonneg {w : World} {table : List (String × Condition)}
    (h : AreSure w table lines) {taken rest : List Line} (hl : lines = taken ++ rest) :
    0 ≤ weigh taken := by
  have hk := h.opened taken.length (by simp [hl])
  rwa [hl, List.take_left] at hk

end Weight

namespace Instant

/-- Other tasks pause and resume the queue, and time passes; observers make no calls. -/
def Peaceful (b : Instant) (l : Option Turn) : Prop :=
  ∀ t, l = some t → b.IsQuiet ∧
    (t = .call .pause ∨ t = .call .resume ∨ t = .work ∨ ∃ time, t = .clock time)

/-- The queue in the middle of lines, some of them announced. -/
structure Fair (w : World) (table : List (String × Condition)) (lines announced : List Line)
    (q : Queue) : Prop where
  world : q.engine.world = w
  table : q.interpreter.conditions = table
  plan : ∃ taken, lines = taken ++ announced ++ q.pending ∧
    (q.interpreter.depth : Int) = Line.weigh taken
  fault : ∀ f, q.fault = some f → ∃ n, f = .number n
  idle : q.status = .idle → q.interpreter.branches = []

structure Balanced (w : World) (table : List (String × Condition)) (lines : List Line)
    (m : Instant) : Prop where
  fair : Fair w table lines m.phase.announced m.queue
  executing : ∀ line, m.phase = .executing line →
    m.queue.status = .running ∧ m.queue.token = some .fresh
  releasing : ∀ line, m.phase = .releasing line → Line.IsBody line

variable {F : Fault → Prop} {w : World} {table : List (String × Condition)}
  {lines announced : List Line} {q r : Queue} {ds : List Duty} {p : Phase} {line : Line}
  {i : Instruction} {m n : Instant}

theorem Fair.same (h : Fair w table lines announced q) (hw : r.engine.world = q.engine.world)
    (ht : r.interpreter.conditions = q.interpreter.conditions)
    (hb : r.interpreter.branches = q.interpreter.branches) (hp : r.pending = q.pending)
    (hf : r.fault = q.fault) (hs : r.status = .idle → q.status = .idle) :
    Fair w table lines announced r where
  world := hw.trans h.world
  table := ht.trans h.table
  plan := by
    obtain ⟨taken, hl, hd⟩ := h.plan
    refine ⟨taken, by rw [hp]; exact hl, ?_⟩
    rw [← hd, Interpreter.depth, hb, Interpreter.depth]
  fault f hr := h.fault f (hf ▸ hr)
  idle hr := hb.trans (h.idle (hs hr))

/-- Outside of an announcement of a line only what is given up counts. -/
theorem balanced_of_fair (h : Fair w table lines [] m.queue)
    (he : ∀ line, m.phase ≠ .executing line)
    (hr : ∀ line, m.phase = .releasing line → Line.IsBody line) : Balanced w table lines m where
  fair := by
    have ha : m.phase.announced = [] := by
      cases hp : m.phase with
      | executing line => exact absurd hp (he line)
      | _ => rfl
    rwa [ha]
  executing line hp := absurd hp (he line)
  releasing := hr

theorem fair_fail (h : Fair w table lines announced q) {f : Fault} (hf : ∃ n, f = .number n) :
    Fair w table lines announced (fail q f).queue := by
  obtain ⟨a, he⟩ := fail_eq q f
  rw [he]
  refine ⟨h.world, h.table, h.plan, fun g hg => ?_, fun hs => by cases hs⟩
  cases hg
  exact hf

/-- Whatever a stretch of a line comes to, the branches stay. -/
theorem balanced_comes (h : Comes (fun f => ∃ n, f = .number n) q line m)
    (hb : Line.IsBody line) (hq : Fair w table lines [] q) : Balanced w table lines m := by
  cases h with
  | result r =>
    exact balanced_of_fair (hq.same rfl rfl rfl rfl rfl id) (by simp [complete])
      (by simp [complete])
  | dropped =>
    refine balanced_of_fair (hq.same rfl rfl rfl rfl rfl id) (by simp [abandon, announce]) ?_
    rintro l hl
    cases hl
    exact hb
  | @failed f hf =>
    obtain ⟨a, hw⟩ := wonder_eq q line f
    have hq' : Fair w table lines [] (q.wonder line f) := by
      rw [hw]
      exact hq.same rfl rfl rfl rfl rfl id
    exact balanced_of_fair (fair_fail hq' hf) (by simp [fail, announce]) (by simp [fail, announce])
  | pause hb i job time =>
    exact balanced_of_fair (hq.same rfl rfl rfl rfl rfl id) (by simp) (by simp)
  | shows hb es hs => exact balanced_of_fair hq (by simp) (by simp)

-- The execution of a line.

/-- A line that neither opens nor closes a branch leaves them alone. -/
theorem comes_body (ht : q.token = some .fresh) (hp : Instruction.parse line.plain = .ok i)
    (hc : i.command.opcode.isControl = false) :
    ∃ a, Comes (fun f => ∃ n, f = .number n) (q.noted a q.interpreter.branches) line
      (execute q line) := by
  have hb : Line.IsBody line := ⟨i, hp, hc⟩
  have ho : q.interpreter.openLine (q.token.getD .fresh)
      (.ofStance q.engine.world q.engine.committed) line.plain =
        q.interpreter.openInstruction (.ofStance q.engine.world q.engine.committed) i := by
    rw [ht]
    exact Interpreter.openLine_fresh hp
  cases hs : q.interpreter.isSkipping with
  | true =>
    rw [Interpreter.openInstruction_skipped hs hc] at ho
    obtain ⟨a, he⟩ := execute_ok ho rfl
    rw [he]
    exact ⟨a, .result _⟩
  | false =>
    have hopen : q.interpreter.openInstruction
        (.ofStance q.engine.world q.engine.committed) i =
          ⟨none, none, (q.interpreter.demand i).map (fun d => (i, d, q.interpreter.branches))⟩ := by
      unfold Interpreter.openInstruction
      split
      · next h => rw [h] at hc; cases hc
      · next h => rw [h] at hc; cases hc
      · rw [if_neg (by simp [hs])]
    rw [hopen] at ho
    cases hd : q.interpreter.demand i with
    | error f =>
      obtain ⟨n, rfl⟩ := Interpreter.demand_error hd
      obtain ⟨a, he⟩ := execute_error ho (by rw [hd]; rfl)
      rw [he]
      exact ⟨a, comes_stumble (fun _ => ⟨n, rfl⟩)⟩
    | ok d =>
      obtain ⟨a, he⟩ := execute_ok ho (by rw [hd]; rfl)
      rw [he]
      exact ⟨a, comes_meet (fun n => ⟨n, rfl⟩) (.inr hb)⟩

/-- A line of the run adds its weight to the open branches. -/
theorem balanced_execute (hl : Line.AreSure w table lines)
    (h : Fair w table lines [line] q) (hs : q.status = .running) (ht : q.token = some .fresh) :
    Balanced w table lines (execute q line) := by
  obtain ⟨taken, hlines, hdepth⟩ := h.plan
  obtain ⟨i, hp⟩ := hl.read line (by simp [hlines])
  have hrest : lines = (taken ++ [line]) ++ q.pending := hlines
  have hweight : Line.weigh (taken ++ [line]) = q.interpreter.depth + line.weight := by
    rw [Line.weigh_append, Line.weigh_singleton, hdepth]
  have hopen : q.interpreter.openLine (q.token.getD .fresh)
      (.ofStance q.engine.world q.engine.committed) line.plain =
        q.interpreter.openInstruction (.ofStance q.engine.world q.engine.committed) i := by
    rw [ht]
    exact Interpreter.openLine_fresh hp
  -- the line counts as taken once the branches have its weight
  have hfair (a : Array Event) {branches : List Bool}
      (hb : (branches.length : Int) = q.interpreter.depth + line.weight) :
      Fair w table lines [] (q.noted a branches) := by
    have hne : q.status ≠ .idle := by simp [hs]
    refine ⟨h.world, h.table, ⟨taken ++ [line], ?_, ?_⟩, h.fault,
      fun hi => absurd hi hne⟩
    · rw [List.append_nil]
      exact hrest
    · rw [hweight]
      exact hb
  have hresult {o : Opening} {r : StepResult} {branches : List Bool}
      (ho : q.interpreter.openInstruction (.ofStance q.engine.world q.engine.committed) i = o)
      (hr : o.result = .ok (i, .finished r, branches))
      (hb : (branches.length : Int) = q.interpreter.depth + line.weight) :
      Balanced w table lines (execute q line) := by
    obtain ⟨a, he⟩ := execute_ok (hopen.trans ho) hr
    rw [he]
    exact balanced_of_fair ((hfair a hb).same rfl rfl rfl rfl rfl id) (by simp [meet, complete])
      (by simp [meet, complete])
  cases hc : i.command with
  | branch name =>
    obtain ⟨c, hlookup, htest⟩ := hl.known line (by simp [hlines]) i name hp hc
    rw [← h.table] at hlookup
    have hw := Line.weight_of_branch hp hc
    cases hskip : q.interpreter.isSkipping with
    | true =>
      refine hresult (Interpreter.openInstruction_branch_skipped hskip hc hlookup) rfl ?_
      simp [hw, Interpreter.depth]
    | false =>
      obtain ⟨value, hv⟩ := htest q.engine.committed
      rw [← h.world] at hv
      refine hresult (Interpreter.openInstruction_branch hskip hc hlookup hv) rfl ?_
      simp [hw, Interpreter.depth]
  | endBranch =>
    have hw := Line.weight_of_endBranch hp hc
    have hnonneg := hl.weigh_nonneg hrest
    rw [hweight, hw] at hnonneg
    cases hb : q.interpreter.branches with
    | nil => simp [Interpreter.depth, hb] at hnonneg
    | cons b branches =>
      refine hresult (Interpreter.openInstruction_endBranch hc hb) rfl ?_
      simp only [hw, Interpreter.depth, hb, List.length_cons]
      omega
  | _ =>
    have hbody : i.command.opcode.isControl = false := by rw [hc]; rfl
    obtain ⟨a, hcomes⟩ := comes_body ht hp hbody
    refine balanced_comes hcomes ⟨i, hp, hbody⟩ (hfair a ?_)
    rw [Line.weight_of_body hp hbody]
    simp [Interpreter.depth]

-- The steps.

theorem balanced_take (hl : Line.AreSure w table lines) (h : Fair w table lines [] q) :
    Balanced w table lines (take q) := by
  have hend (hp : q.pending = []) : q.interpreter.branches = [] := by
    obtain ⟨taken, hlines, hdepth⟩ := h.plan
    have ht : taken = lines := by simp [hlines, hp]
    rw [ht, hl.closed] at hdepth
    simpa [Interpreter.depth] using hdepth
  refine take_cases q ?_ ?_ ?_ ?_
  · exact fun _ => balanced_of_fair (h.same rfl rfl rfl rfl rfl id) (by simp) (by simp)
  · intro a f _ hp hf
    simp [Interpreter.checkBalanced, hend hp] at hf
  · intro a hs hp _
    refine balanced_of_fair ⟨h.world, h.table, h.plan, h.fault, fun _ => hend hp⟩ (by simp)
      (by simp)
  · intro line pending hs hp
    obtain ⟨taken, hlines, hdepth⟩ := h.plan
    refine ⟨⟨h.world, h.table, ⟨taken, ?_, hdepth⟩, h.fault, h.idle⟩, ?_, by simp [announce]⟩
    · rw [hlines, hp]
      simp [announce, Phase.announced, Queue.record, Queue.pick]
    · exact fun l _ => ⟨hs, rfl⟩

theorem balanced_advance (hl : Line.AreSure w table lines) (hm : p.Suits q)
    (h : Balanced w table lines ⟨q, [], p⟩) : Balanced w table lines (advance q p) := by
  by_cases he : ∃ line, p = .executing line
  · obtain ⟨line, rfl⟩ := he
    obtain ⟨hs, ht⟩ := h.executing line rfl
    simp only [advance]
    exact balanced_execute hl h.fair hs ht
  · have hne : ∀ line, p ≠ .executing line := fun line hp => he ⟨line, hp⟩
    have hq : Fair w table lines [] q := by
      have hf := h.fair
      have ha : p.announced = [] := by
        cases p with
        | executing line => exact absurd rfl (hne line)
        | _ => rfl
      rwa [show (Instant.mk q [] p).phase.announced = [] from ha] at hf
    refine advance_cases hm ?_ ?_ ?_ ?_ ?_ ?_ ?_ ?_
    · exact fun _ => balanced_of_fair hq (by simp [ofQueue]) (by simp [ofQueue])
    · exact fun _ => balanced_take hl hq
    · intro a b line m _ hbody hc
      obtain ⟨hb, rfl⟩ := hbody hne
      exact balanced_comes (hc.mono (fun f hf => hf hne)) hb (hq.same rfl rfl rfl rfl rfl id)
    · rintro e es s a k ds rfl _
      refine balanced_of_fair (hq.same ?_ rfl rfl rfl rfl id) (by simp) (by simp)
      exact Engine.world_applyAll q.engine [e]
    · exact fun _ => balanced_of_fair hq (by simp [ofQueue]) (by simp [ofQueue])
    · exact fun _ => balanced_of_fair (hq.same rfl rfl rfl rfl rfl id) (by simp [announce])
        (by simp [announce])
    · exact fun line _ => balanced_of_fair (hq.same rfl rfl rfl rfl rfl id) (by simp) (by simp)
    · exact fun failed _ => balanced_of_fair (hq.same rfl rfl rfl rfl rfl id) (by simp [ofQueue])
        (by simp [ofQueue])

/-- A pause and a resume leave the plan and the branches alone, and an idle queue idle. -/
theorem fair_call (h : Fair w table lines [] q) {c : Call} (hc : c = .pause ∨ c = .resume) :
    Fair w table lines [] (call q [] .resting c).queue := by
  rcases hc with rfl | rfl
  · simp only [call]
    split
    · obtain ⟨a, he⟩ := shift_eq .paused (q.cancelInFlight "paused")
      rw [he]
      exact h.same rfl rfl rfl rfl rfl (by simp [announce, Queue.record])
    · exact h
  · simp only [call]
    split
    · obtain ⟨a, he⟩ := shift_eq .running q
      rw [he]
      exact h.same rfl rfl rfl rfl rfl (by simp [announce, Queue.record])
    · exact h

theorem balanced_begin (hm : q.IsParked) (hq : Fair w table lines [] q) {t : Turn}
    (ht : t = .call .pause ∨ t = .call .resume ∨ t = .work ∨ ∃ time, t = .clock time) :
    Balanced w table lines (begin q t) := by
  have hcall {c : Call} (hc : c = .pause ∨ c = .resume) :
      Balanced w table lines (call q [] .resting c) := by
    have hphase := phase_call q [] .resting c
    exact balanced_of_fair (fair_call hq hc) (fun line hp => by rw [hphase] at hp; cases hp)
      (fun line hp => by rw [hphase] at hp; cases hp)
  rcases ht with rfl | rfl | rfl | ⟨time, rfl⟩
  · exact hcall (.inl rfl)
  · exact hcall (.inr rfl)
  · refine work_cases hm ?_ ?_ ?_
    · exact fun _ => balanced_of_fair (hq.same rfl rfl rfl rfl rfl id) (by simp) (by simp)
    · exact fun line i job time m _ _ hb hc =>
        balanced_comes hc hb (hq.same rfl rfl rfl rfl rfl id)
    · exact balanced_of_fair hq (by simp [ofQueue]) (by simp [ofQueue])
  · exact balanced_of_fair (hq.same rfl rfl rfl rfl rfl id) (by simp [begin, ofQueue])
      (by simp [begin, ofQueue])

theorem Balanced.step {l : Option Turn} (hl : Line.AreSure w table lines)
    (h : Balanced w table lines m) (hm : Sound m) (hs : Step m l n) (hp : Peaceful m l) :
    Balanced w table lines n := by
  cases hs with
  | turn q t => exact balanced_begin hm h.fair (hp t rfl).2
  | answer q moment ds p c => simpa using (hp _ rfl).1.duties
  | order q moment ds p os =>
    exact ⟨h.fair.same rfl rfl rfl rfl rfl id, h.executing, h.releasing⟩
  | heeded q moment ds p => exact ⟨h.fair, h.executing, h.releasing⟩
  | kick q ds p =>
    obtain ⟨w, hw⟩ := kick_eq q
    rw [hw]
    exact ⟨h.fair.same rfl rfl rfl rfl rfl id, h.executing, h.releasing⟩
  | advance q hp => exact balanced_advance hl hm h

end Instant

end Courier
