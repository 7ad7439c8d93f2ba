import Courier.Proofs.Engine.Realm
import Courier.Proofs.Run.Chronicle
import Courier.Proofs.Run.Solvability

namespace Courier

/-- Effects that lead a stance over as many cells as the results tell. -/
def Journey (w : World) (s : Stance) (es : List Effect) (rs : List StepResult) : Prop :=
  ∃ n : Nat, StepResult.passed rs = n ∧ w.graph.LeadsIn n s.cell (s.after es).cell

section Journeys

variable {w : World} {m : MotionSettings} {s : Stance}

theorem World.stroll_leadsIn {sign : Int} (hs : sign = 1 ∨ sign = -1) (n : Nat) (s : Stance) :
    w.graph.LeadsIn (w.stroll sign n s).1 s.cell (w.stroll sign n s).2.cell := by
  induction n generalizing s with
  | zero => exact .nil _
  | succ n ih =>
    unfold stroll
    by_cases he : w.canEnter (s.ahead sign)
    · rw [if_pos he]
      have hstep : w.graph.LeadsIn 1 s.cell (s.ahead sign) :=
        .tail (.nil _) (Stance.ahead_mem_exits hs he)
      dsimp only
      rw [Nat.add_comm]
      exact hstep.append (ih { s with cell := s.ahead sign })
    · rw [if_neg he]
      exact .nil _

/-- An action passes the cells that its answer tells. -/
theorem Action.feat_leadsIn (i : Instruction) (s : Stance) (a : Action) :
    ∃ n : Nat, StepResult.passed [.ofAnswer i (a.feat w s).answer] = n ∧
      w.graph.LeadsIn n s.cell (a.feat w s).stance.cell := by
  cases a with
  | move backward steps =>
    exact ⟨_, by simp [feat, StepResult.passed, StepResult.ofAnswer],
      World.stroll_leadsIn (sign_cases backward) (max 1 steps).toNat s⟩
  | turn left => exact ⟨0, rfl, .nil _⟩
  | pickup =>
    unfold feat
    dsimp only
    split <;> exact ⟨0, rfl, .nil _⟩
  | dropoff =>
    unfold feat
    dsimp only
    split <;> exact ⟨0, rfl, .nil _⟩

theorem journeys_chronicle (hm : m.IsTimely) (w : World) : Chronicle m w (Journey w) where
  nil _ := ⟨0, rfl, .nil _⟩
  append := by
    rintro s es fs rs qs ⟨n, hp, hn⟩ ⟨k, hq, hk⟩
    refine ⟨n+k, ?_, ?_⟩
    · rw [StepResult.passed_append, hp, hq, Nat.cast_add]
    · rw [Stance.after_append]
      exact hn.append hk
  line {c e} hem hw hc := by
    cases hc with
    | refused hr he =>
      rw [Course.logged, hr, he]
      exact ⟨0, rfl, .nil _⟩
    | idle hr he hi =>
      rw [Course.logged, hr, he]
      exact ⟨0, by simp [StepResult.passed, Except.toOption, hi.moved], .nil _⟩
    | @act i a ha hr he =>
      rw [hem, hw] at hr he
      obtain ⟨hanswer, hstance, _⟩ := Action.whole_achieves (w := w) hm.isPaced e.committed a
      rw [hanswer] at hr
      obtain ⟨n, hp, hn⟩ := a.feat_leadsIn (w := w) i e.committed
      rw [Course.logged, hr, he]
      refine ⟨n, hp, ?_⟩
      rw [hstance]
      exact hn

end Journeys

/-- The numbers of cells that programs pass which an engine runs and which end on some cells. -/
def Engine.tolls (e : Engine) (wait : WaitSettings) (goals : Set Cell) : Set Int :=
  {k | ∃ texts : List String,
    let o := Outcome.ofEngine e wait (texts.map .text)
    o.final.cell ∈ goals ∧ StepResult.passed o.results = k}

section Tolls

variable {f : PathFinder} {e : Engine} {wait : WaitSettings} {goals : Set Cell} {d n : Nat}

theorem Engine.leadsIn_of_toll (hm : e.settings.IsTimely) {k : Int} (hk : k ∈ e.tolls wait goals) :
    ∃ n : Nat, k = n ∧ ∃ c ∈ goals, e.world.graph.LeadsIn n e.committed.cell c := by
  obtain ⟨texts, hg, rfl⟩ := hk
  obtain ⟨es, hfinal, _, n, hp, hn⟩ :=
    (journeys_chronicle hm e.world).ofEngine wait (texts.map .text)
  rw [← hfinal] at hn
  exact ⟨n, hp, _, hg, hn⟩

/-- The tour over a chain of moves pays for each of them. -/
theorem Engine.toll_of_leadsIn (hm : e.settings.IsTimely) {c : Cell} (hc : c ∈ goals)
    (hn : e.world.graph.LeadsIn n e.committed.cell c) : (n : Int) ∈ e.tolls wait goals := by
  obtain ⟨cs, u, hu, rfl, _, hp⟩ := Tour.exists_trip hn rfl
  obtain ⟨hfinal, hresults, _⟩ := hu.ofEngine_ends rfl rfl hm wait
  refine ⟨cs.map Command.line, ?_, ?_⟩
  · rwa [hfinal]
  · rw [hresults, hp]

/-- Programs pass as many cells on the way to their goals as moves lead there. -/
theorem Engine.isLeast_tolls (hm : e.settings.IsTimely) :
    IsLeast (e.tolls wait goals) d ↔
      IsLeast {n | ∃ c ∈ goals, e.world.graph.LeadsIn n e.committed.cell c} d := by
  constructor
  · rintro ⟨hd, hleast⟩
    obtain ⟨n, hn, hc⟩ := leadsIn_of_toll hm hd
    cases Nat.cast_injective hn
    refine ⟨hc, ?_⟩
    rintro k ⟨c, hg, hk⟩
    exact Int.ofNat_le.mp (hleast (toll_of_leadsIn hm hg hk))
  · rintro ⟨⟨c, hg, hd⟩, hleast⟩
    refine ⟨toll_of_leadsIn hm hg hd, ?_⟩
    intro k hk
    obtain ⟨n, rfl, hn⟩ := leadsIn_of_toll hm hk
    exact Int.ofNat_le.mpr (hleast hn)

theorem Engine.tolls_eq_empty (hm : e.settings.IsTimely) :
    e.tolls wait goals = ∅ ↔ ∀ c ∈ goals, ¬e.world.graph.Leads e.committed.cell c := by
  constructor
  · intro h c hc hl
    obtain ⟨n, hn⟩ := hl.exists_count
    exact Set.eq_empty_iff_forall_notMem.mp h _ (toll_of_leadsIn hm hc hn)
  · intro h
    refine Set.eq_empty_iff_forall_notMem.mpr ?_
    intro k hk
    obtain ⟨n, _, c, hc, hn⟩ := leadsIn_of_toll hm hk
    exact h c hc hn.leads

/-- The distance from where an engine stands to a goal is the least number of cells that a program
passes which ends there; there is none exactly if one of the two cannot be entered or no program
ends there. The path finder may be any that finds shortest paths in graphs. -/
theorem distance?_least_toll (hf : f.IsLawful) (hm : e.settings.IsTimely) (wait : WaitSettings)
    (goal : Cell) :
    let start := e.committed.cell
    (∀ d : Nat, e.world.distanceBy? f start goal = some d ↔
      e.world.canEnter start ∧ e.world.canEnter goal ∧ IsLeast (e.tolls wait {goal}) d) ∧
    (e.world.distanceBy? f start goal = none ↔
      e.world.canEnter start = false ∨ e.world.canEnter goal = false ∨
        e.tolls wait {goal} = ∅) := by
  intro start
  have hleast (d : Nat) : IsLeast (e.tolls wait {goal}) d ↔ e.world.graph.IsAway start d goal := by
    rw [Engine.isLeast_tolls hm]
    simp [CellGraph.IsAway, start]
  constructor
  · intro d
    rw [World.distanceBy?_eq_some hf, hleast]
    constructor
    · rintro ⟨hs, hd⟩
      exact ⟨hs, World.canEnter_of_leads hd.1.leads hs, hd⟩
    · rintro ⟨hs, _, hd⟩
      exact ⟨hs, hd⟩
  · rw [World.distanceBy?_eq_none hf, Engine.tolls_eq_empty hm]
    simp only [Set.mem_singleton_iff, forall_eq]
    constructor
    · intro h
      cases hs : e.world.canEnter start with
      | false => exact .inl rfl
      | true => exact .inr (.inr (h hs))
    · rintro (hs | hg | hl) hc
      · rw [hs] at hc
        cases hc
      · intro hl
        rw [World.canEnter_of_leads hl hc] at hg
        cases hg
      · exact hl

theorem distance?_least_toll_depot :
    ∃ e : Engine,
      Engine.make .depot (some (.ofStance ⟨(1, 0), .west, .bool false⟩)) .standard = .ok e ∧
        IsLeast (e.tolls .standard {(2, 0)}) 1 := by
  let s : Stance := ⟨(1, 0), .west, .bool false⟩
  let e : Engine := ⟨.depot, .standard, s, .still s, [], 0, []⟩
  have hp : (PoseEntry.ofStance s).stance = .ok s :=
    PoseEntry.stance_of_canEnter (w := .depot) (by decide) (by decide) (by decide)
  obtain ⟨hdistance, _⟩ :=
    distance?_least_toll (e := e) PathFinder.layered_isLawful MotionSettings.standard_isTimely
      .standard (2, 0)
  obtain ⟨_, _, hleast⟩ := (hdistance 1).mp (by decide)
  exact ⟨e, Queue.make_of_stance hp (w := .depot) (by decide) .standard, hleast⟩

end Tolls

end Courier
