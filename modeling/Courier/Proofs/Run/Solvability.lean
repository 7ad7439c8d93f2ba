import Courier.Proofs.Engine.Feat
import Courier.Proofs.Grid.PathFinder
import Courier.Proofs.Instruction.Spelling
import Courier.Proofs.Number.Exact
import Courier.Proofs.Queue.Outlook
import Courier.Run.Outcome

namespace Courier

/-- The cells that instructions pass, as their results tell it. -/
def StepResult.passed (rs : List StepResult) : Int := (rs.map (·.moved.getD 0)).sum

@[simp] theorem StepResult.passed_nil : passed [] = 0 := rfl

@[simp] theorem StepResult.passed_append (rs qs : List StepResult) :
    passed (rs ++ qs) = passed rs + passed qs := by
  simp [passed]

/-- Commands that are read as they are spelled and carried out one after another; the number counts
how often they complete the level. -/
inductive Tour (w : World) : Stance → List Command → Stance → Nat → Prop
  | nil (s : Stance) : Tour w s [] s 0
  | cons {s t : Stance} {c : Command} {cs : List Command} {a : Action} {n : Nat}
      (reads : Instruction.parse c.line = .ok ⟨c.line, c⟩) (acts : c.action? = some a)
      (rest : Tour w (a.feat w s).stance cs t n) :
      Tour w s (c :: cs) t ((a.feat w s).completions + n)

namespace Tour

/-- The results of commands carried out one after another from a stance. -/
def log (w : World) : Stance → List Command → List StepResult
  | _, [] => []
  | s, c :: cs =>
    match c.action? with
    | some a => .ofAnswer ⟨c.line, c⟩ (a.feat w s).answer :: log w (a.feat w s).stance cs
    | none => log w s cs

variable {w : World} {s t u : Stance}

theorem log_cons {c : Command} {a : Action} (acts : c.action? = some a) (s : Stance)
    (cs : List Command) :
    log w s (c :: cs) =
      .ofAnswer ⟨c.line, c⟩ (a.feat w s).answer :: log w (a.feat w s).stance cs := by
  rw [log, acts]

theorem log_append {cs : List Command} {n : Nat} (h : Tour w s cs t n) (ds : List Command) :
    log w s (cs ++ ds) = log w s cs ++ log w t ds := by
  induction h with
  | nil s => rfl
  | cons reads acts rest ih => rw [List.cons_append, log_cons acts, log_cons acts, ih]; rfl

theorem append {cs ds : List Command} {m n : Nat} (h : Tour w s cs t m) (g : Tour w t ds u n) :
    Tour w s (cs ++ ds) u (m+n) := by
  induction h with
  | nil s => simpa using g
  | cons reads acts rest ih =>
    rw [Nat.add_assoc]
    exact .cons reads acts (ih g)

theorem single {c : Command} {a : Action} (reads : Instruction.parse c.line = .ok ⟨c.line, c⟩)
    (acts : c.action? = some a) :
    Tour w s [c] (a.feat w s).stance (a.feat w s).completions :=
  .cons reads acts (.nil _)

theorem turnLeft (s : Stance) :
    Tour w s [.turnLeft] { s with heading := s.heading.turned (-1) } 0 :=
  single (Instruction.parse_bare (c := .turnLeft) (by decide)) rfl

theorem pickup (hs : s.isCarrying = false) (hb : w.isBeside s.cell .pickup) :
    Tour w s [.pickup] { s with cargo := .bool true } 0 := by
  have h : Tour w s [.pickup] _ _ :=
    single (Instruction.parse_bare (c := .pickup) (by decide)) rfl
  simpa [Action.feat, hs, hb] using h

theorem dropoff (hs : s.isCarrying) (hb : w.isBeside s.cell .dropoff) :
    Tour w s [.dropoff] { s with cargo := .bool false } 1 := by
  have h : Tour w s [.dropoff] _ _ :=
    single (Instruction.parse_bare (c := .dropoff) (by decide)) rfl
  simpa [Action.feat, hs, hb] using h

theorem moveForward (he : w.canEnter (s.ahead 1)) :
    Tour w s [.moveForward 1] { s with cell := s.ahead 1 } 0 := by
  have hr : Instruction.parse (Command.moveForward 1).line =
      .ok ⟨(Command.moveForward 1).line, .moveForward 1⟩ :=
    Instruction.parse_counted .moveForward (by simp [Command.counted]) (by decide) (by decide)
  have h : Tour w s [.moveForward 1] _ _ := single hr rfl
  simpa [Action.feat, World.stroll, he] using h

theorem passed_moveForward (he : w.canEnter (s.ahead 1)) :
    StepResult.passed (log w s [.moveForward 1]) = 1 := by
  have hf : Action.feat w s (.move false 1) = ⟨.moved 1, { s with cell := s.ahead 1 }, 0⟩ := by
    simp [Action.feat, World.stroll, he]
  rw [log_cons (a := .move false 1) rfl, hf]
  rfl

/-- Turns to the left lead to every heading. -/
theorem exists_turns (s : Stance) (h : Heading) :
    ∃ cs, Tour w s cs { s with heading := h } 0 ∧ StepResult.passed (log w s cs) = 0 := by
  have hk : ∃ k, (fun g => Heading.turned g (-1))^[k] s.heading = h := by
    cases s.heading <;> cases h <;>
      first
        | exact ⟨0, rfl⟩
        | exact ⟨1, rfl⟩
        | exact ⟨2, rfl⟩
        | exact ⟨3, rfl⟩
  obtain ⟨k, hk⟩ := hk
  induction k generalizing s with
  | zero =>
    refine ⟨[], ?_, rfl⟩
    subst hk
    exact .nil s
  | succ k ih =>
    obtain ⟨cs, hcs, hp⟩ := ih { s with heading := s.heading.turned (-1) } hk
    refine ⟨[.turnLeft] ++ cs, (turnLeft s).append hcs, ?_⟩
    rw [log_append (turnLeft s), StepResult.passed_append, hp]
    rfl

theorem exists_step {d : Cell} (hd : d ∈ w.exits s.cell) :
    ∃ cs t, Tour w s cs t 0 ∧ t.cell = d ∧ t.cargo = s.cargo ∧
      StepResult.passed (log w s cs) = 1 := by
  obtain ⟨hb, he⟩ := List.mem_filter.mp hd
  have hh : ∃ h, d = Stance.ahead { s with heading := h } 1 := by
    simp only [World.beside, List.mem_cons, List.not_mem_nil, or_false] at hb
    rcases hb with rfl | rfl | rfl | rfl
    · exact ⟨.east, by simp [Stance.ahead, Heading.delta]⟩
    · exact ⟨.west, by simp [Stance.ahead, Heading.delta, Int.sub_eq_add_neg]⟩
    · exact ⟨.north, by simp [Stance.ahead, Heading.delta]⟩
    · exact ⟨.south, by simp [Stance.ahead, Heading.delta, Int.sub_eq_add_neg]⟩
  obtain ⟨h, rfl⟩ := hh
  obtain ⟨cs, hcs, hp⟩ := exists_turns (w := w) s h
  refine ⟨_, _, hcs.append (moveForward he), rfl, rfl, ?_⟩
  rw [log_append hcs, StepResult.passed_append, hp, passed_moveForward he]
  rfl

/-- A chain of moves is walked by as many steps. -/
theorem exists_trip {n : Nat} {c d : Cell} (h : w.graph.LeadsIn n c d) (hs : s.cell = c) :
    ∃ cs t, Tour w s cs t 0 ∧ t.cell = d ∧ t.cargo = s.cargo ∧
      StepResult.passed (log w s cs) = n := by
  induction h with
  | nil c => exact ⟨[], s, .nil s, hs, rfl, rfl⟩
  | tail _ hd ih =>
    obtain ⟨cs, t, ht, rfl, hc, hp⟩ := ih hs
    obtain ⟨ds, u, hu, hcell, hcargo, hq⟩ := exists_step hd
    refine ⟨cs ++ ds, u, ht.append hu, hcell, hcargo.trans hc, ?_⟩
    rw [log_append ht, StepResult.passed_append, hp, hq, Nat.cast_succ]

theorem exists_walk {d : Cell} (h : w.graph.Leads s.cell d) :
    ∃ cs t, Tour w s cs t 0 ∧ t.cell = d ∧ t.cargo = s.cargo := by
  obtain ⟨n, hn⟩ := h.exists_count
  obtain ⟨cs, t, ht, hd, hc, _⟩ := exists_trip hn rfl
  exact ⟨cs, t, ht, hd, hc⟩

/-- On a solvable level cargo can be taken and then delivered. -/
theorem exists_delivery {f : PathFinder} (hf : f.IsLawful) (hs : w.isSolvableBy f s.cell)
    (hc : s.isCarrying = false) : ∃ cs t, Tour w s cs t 1 := by
  obtain ⟨⟨c, hcr, hcb⟩, d, hdr, hdb⟩ := World.isSolvableBy_iff.mp hs
  obtain ⟨cs, t, ht, rfl, htc⟩ := exists_walk ((World.mem_reachableBy hf).mp hcr).2
  have htn : t.isCarrying = false := by rw [Stance.isCarrying, htc]; exact hc
  obtain ⟨ds, u, hu, rfl, huc⟩ := exists_walk (s := { t with cargo := .bool true })
    (World.leads_of_reachableBy hf hcr hdr)
  have hun : u.isCarrying := by rw [Stance.isCarrying, huc]; rfl
  exact ⟨_, _, ((ht.append (pickup htn hcb)).append hu).append (dropoff hun hdb)⟩

/-- The lines of a tour, run undisturbed, lead to where the tour leads. -/
theorem ofLines_eq {cs : List Command} {n : Nat} (h : Tour w s cs u n) {t : Interpreter}
    (ht : t.branches = []) {e : Engine} (hw : e.world = w) (hs : e.committed = s)
    (hm : e.settings.IsTimely) (done : List StepResult) :
    ∃ f : Engine, f.committed = u ∧ f.completed = e.completed + n ∧
      Outlook.ofLines t e done (cs.map (fun c => .text c.line)) =
        .ofEnd t f (done ++ log w s cs) := by
  induction h generalizing e done with
  | nil s =>
    refine ⟨e, hs, rfl, ?_⟩
    rw [log, List.append_nil]
    rfl
  | @cons s u c cs a n reads acts rest ih =>
    obtain ⟨hanswer, hstance, hcount⟩ :=
      Action.whole_achieves (w := e.world) hm.isPaced e.committed a
    let effects := (a.whole e.settings e.world e.committed).2
    have hline : Course.ofLine t e (.text c.line) =
        ⟨t.branches, effects, .ok (.ofAnswer ⟨c.line, c⟩ (a.feat e.world e.committed).answer)⟩ := by
      have hskip : t.isSkipping = false := by simp [Interpreter.isSkipping, ht]
      have hread : Instruction.parse (Json.Value.text c.line).plain = .ok ⟨c.line, c⟩ := by
        rw [Json.Value.plain_text]
        exact reads
      rw [Course.ofLine_act hskip hread acts, hanswer]
      rfl
    have hx : (e.applyAll effects).committed = (a.feat w s).stance := by
      rw [Engine.committed_applyAll, hstance, hw, hs]
    obtain ⟨f, hu, hf, ho⟩ := ih (e := e.applyAll effects) (by simpa using hw) hx
      (by simpa using hm) (done ++ [.ofAnswer ⟨c.line, c⟩ (a.feat e.world e.committed).answer])
    refine ⟨f, hu, ?_, ?_⟩
    · rw [hf, Engine.completed_applyAll, hcount, hw, hs, Nat.add_assoc]
    · have hlog : done ++ log w s (c :: cs) =
          done ++ [.ofAnswer ⟨c.line, c⟩ (a.feat e.world e.committed).answer]
            ++ log w (a.feat w s).stance cs := by
        rw [log_cons acts, hw, hs, List.append_assoc, List.singleton_append]
      rw [hlog, ← ho, List.map_cons, Outlook.ofLines, hline]
      rfl

/-- A tour that is run as a program ends where it leads, and logs what happens on the way. -/
theorem ofEngine_ends {cs : List Command} {n : Nat} (h : Tour w s cs u n) {e : Engine}
    (hw : e.world = w) (hs : e.committed = s) (hm : e.settings.IsTimely) (wait : WaitSettings) :
    let o := Outcome.ofEngine e wait ((cs.map Command.line).map .text)
    o.final = u ∧ o.results = log w s cs ∧ o.queue.engine.completed = e.completed + n := by
  intro o
  let t := Interpreter.make wait []
  obtain ⟨f, hu, hf, ho⟩ := h.ofLines_eq (t := t.reset) rfl hw hs hm []
  obtain ⟨_, _, _, hfinal, _⟩ := Queue.run_settles (t := t) (Interpreter.make_isHonest wait) e
    (cs.map (fun c => .text c.line))
  have hq : o.queue.final = .ofEnd t.reset f (log w s cs) := by
    simp only [o, Outcome.ofEngine, List.map_map]
    exact hfinal.trans ho
  have hengine : o.queue.engine = f := congrArg Outlook.engine hq
  have hresults : o.results = log w s cs := congrArg Outlook.results hq
  refine ⟨?_, hresults, ?_⟩
  · rw [Outcome.final, hengine, hu]
  · rw [hengine, hf]

end Tour

/-- The cells that can be reached from a start, and what can be done beside them. -/
def World.within {f : PathFinder} (hf : f.IsLawful) (w : World) (start : Cell) : Realm w where
  Has c := c ∈ w.reachableBy f start
  canTake := ∃ c ∈ w.reachableBy f start, w.isBeside c .pickup
  canDeliver := ∃ c ∈ w.reachableBy f start, w.isBeside c .dropoff
  exits c d hc hd := by
    obtain ⟨hs, hl⟩ := (mem_reachableBy hf).mp hc
    exact (mem_reachableBy hf).mpr ⟨hs, hl.tail hd⟩
  pickup c hc hb := ⟨c, hc, hb⟩
  dropoff c hc hb := ⟨c, hc, hb⟩

namespace Queue

variable {w : World} {k : Realm w} {q : Queue}

theorem sane_settleWithin (h : Sane k q) (bound : Nat) : Sane k (q.settleWithin bound).2 := by
  induction bound generalizing q with
  | zero => exact h
  | succ bound ih =>
    unfold settleWithin
    split
    · exact h
    · split
      · exact ih (sane_work h)
      · split
        · next wake _ =>
          have hq : Sane k { q with now := wake } :=
            ⟨⟨h.inside.world, h.inside.fits, h.inside.table⟩, h.rests⟩
          exact ih (sane_work hq)
        · exact h

theorem sane_settle (h : Sane k q) : Sane k q.settle.2 := sane_settleWithin h _

end Queue

section Solvability

variable {f : PathFinder} {w : World} {s : Stance} {m : MotionSettings}

/-- The engine of a run from a pose without cargo. -/
theorem Outcome.ofRun_eq {p : PoseEntry} (hp : p.stance = .ok s) (hs : w.canEnter s.cell)
    (m : MotionSettings) (wait : WaitSettings) :
    ∃ e : Engine, e.world = w ∧ e.settings = m ∧ e.committed = s ∧ e.completed = 0 ∧
      ∀ lines, Outcome.ofRun lines w (some p) m wait = .ok (.ofEngine e wait lines) := by
  refine ⟨{ world := w, settings := m, committed := s, shown := .still s, observers := []
            completed := 0 }, rfl, rfl, rfl, rfl, ?_⟩
  intro lines
  unfold ofRun
  rw [Queue.make_of_stance hp hs m]
  rfl

/-- A run that completes the level shows that it is solvable. -/
theorem isSolvable_of_run (hf : f.IsLawful) (hc : s.isCarrying = false) (hs : w.canEnter s.cell)
    {e : Engine} (hw : e.world = w) (he : e.committed = s) (hn : e.completed = 0)
    {wait : WaitSettings} {lines : List Line}
    (h : 0 < (Outcome.ofEngine e wait lines).queue.engine.completed) :
    w.isSolvableBy f s.cell := by
  have hfits : (w.within hf s.cell).Fits s 0 :=
    ⟨(World.mem_reachableBy hf).mpr ⟨hs, .refl⟩, by simp [hc], by simp⟩
  have hmake : Queue.Sane (w.within hf s.cell) (Queue.make (.make wait []) e) := by
    have htable : (Interpreter.make wait []).conditions ≠ [] := by
      simp [Interpreter.make, Condition.table, Condition.standard]
    refine ⟨⟨hw, ?_, htable⟩, rfl⟩
    change (w.within hf s.cell).Fits e.committed e.completed
    rw [he, hn]
    exact hfits
  have hcall := Queue.sane_turn hmake (t := .call (.run lines)) (by simp)
  have hend := Queue.sane_settle hcall
  exact World.isSolvableBy_iff.mpr (hend.inside.fits.delivered h)

/-- The tour of a solvable level completes it, run as a program. -/
theorem exists_run (hf : f.IsLawful) (hm : m.IsTimely) (hs : w.isSolvableBy f s.cell)
    (hc : s.isCarrying = false) {e : Engine} (hw : e.world = w) (he : e.committed = s)
    (ht : e.settings = m) (wait : WaitSettings) : ∃ texts : List String,
      0 < (Outcome.ofEngine e wait (texts.map .text)).queue.engine.completed := by
  obtain ⟨cs, u, h⟩ := Tour.exists_delivery hf hs hc
  obtain ⟨_, _, hcompleted⟩ := h.ofEngine_ends hw he (by rwa [ht]) wait
  refine ⟨cs.map Command.line, ?_⟩
  rw [hcompleted]
  omega

/-- A cell the agent may stand on is solvable exactly if, from a pose there without cargo, some
program completes the level, whatever the heading and the timing; any other cell is not. The path
finder may be any that finds the components of graphs. -/
theorem isSolvable_iff_completes (hf : f.IsLawful) (w : World) (start : Cell) (hm : m.IsTimely)
    (wait : WaitSettings) :
    (w.canEnter start →
      ∀ (p : PoseEntry) (h : Heading) (cargo : Json.Value),
        p.stance = .ok ⟨start, h, cargo⟩ → cargo.isFilled = false →
          (w.isSolvableBy f start = true ↔ ∃ (texts : List String) (o : Outcome),
            Outcome.ofRun (texts.map .text) w (some p) m wait = .ok o ∧
              0 < o.queue.engine.completed)) ∧
      (w.canEnter start = false → w.isSolvableBy f start = false) := by
  constructor
  · intro hs p h cargo hp hc
    obtain ⟨e, hw, ht, he, hn, hr⟩ := Outcome.ofRun_eq hp hs m wait
    constructor
    · intro hsolve
      obtain ⟨texts, hpos⟩ := exists_run (s := ⟨start, h, cargo⟩) hf hm hsolve hc hw he ht wait
      exact ⟨texts, _, hr _, hpos⟩
    · rintro ⟨texts, o, ho, hpos⟩
      rw [hr] at ho
      cases ho
      exact isSolvable_of_run (s := ⟨start, h, cargo⟩) hf hc hs hw he hn hpos
  · intro hs
    exact World.isSolvableBy_of_not_canEnter (by simp [hs])

/-- A cell between a pickup cell and a dropoff cell. -/
def World.depot : World :=
  .ofFn 3 1 (fun i _ => if i = 0 then .pickup else if i = 1 then .empty else .dropoff) []
    (by decide) Nat.one_pos

theorem isSolvable_iff_completes_depot :
    World.depot.canEnter (1, 0) ∧ ∃ (texts : List String) (o : Outcome),
      Outcome.ofRun (texts.map .text) .depot (some (.ofStance ⟨(1, 0), .west, .bool false⟩))
        .standard .standard = .ok o ∧ 0 < o.queue.engine.completed := by
  have he : World.depot.canEnter (1, 0) := by decide
  have hp : (PoseEntry.ofStance ⟨(1, 0), .west, .bool false⟩).stance =
      .ok ⟨(1, 0), .west, .bool false⟩ :=
    PoseEntry.stance_of_canEnter (w := .depot) (by decide) (by decide) he
  have hs : World.depot.isSolvable (1, 0) = true := by decide
  have h := (isSolvable_iff_completes PathFinder.layered_isLawful .depot (1, 0)
    MotionSettings.standard_isTimely .standard).1 he _ .west (.bool false) hp rfl
  exact ⟨he, h.mp hs⟩

end Solvability

end Courier
