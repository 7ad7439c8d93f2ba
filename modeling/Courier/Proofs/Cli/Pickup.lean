import Courier.Cli.Execute
import Courier.Proofs.Engine.Uncancelled
import Courier.Proofs.Json.Lookup
import Courier.Proofs.Run.Shortest

namespace Courier

namespace World

variable {w : World} {start c : Cell} {k : Kind} {d : Nat}

theorem mem_cellsOfKind : c ∈ w.cellsOfKind k ↔ w.kindAt? c = some k := by
  have hbounds (h : w.kindAt? c = some k) : w.inBounds c := by
    unfold kindAt? at h
    split at h
    · assumption
    · cases h
  simp only [cellsOfKind, List.mem_filter, mem_cells, decide_eq_true_eq]
  exact ⟨And.right, fun h => ⟨hbounds h, h⟩⟩

/-- The neighbors of the cells of a kind are the cells beside that kind. -/
theorem mem_neighbors_ofKind :
    c ∈ (w.cellsOfKind k).flatMap w.neighbors ↔ w.inBounds c ∧ w.isBeside c k := by
  simp only [List.mem_flatMap, mem_cellsOfKind, neighbors, List.mem_filter, isBeside,
    List.any_eq_true, decide_eq_true_eq]
  constructor
  · rintro ⟨p, hp, hc, hb⟩
    exact ⟨hb, p, mem_beside_symm hc, hp⟩
  · rintro ⟨hb, p, hc, hp⟩
    exact ⟨p, hp, mem_beside_symm hc, hb⟩

end World

namespace Cli

variable {f : PathFinder} {w : World} {start : Cell} {d : Nat}

theorem mem_distances (hf : f.IsLawful) :
    d ∈ ((w.cellsOfKind .pickup).flatMap w.neighbors).filterMap (w.distanceBy? f start) ↔
      w.canEnter start ∧ ∃ c, w.isBeside c .pickup ∧ w.graph.IsAway start d c := by
  simp only [List.mem_filterMap, World.mem_neighbors_ofKind, World.distanceBy?_eq_some hf]
  constructor
  · rintro ⟨c, ⟨_, hc⟩, hs, hd⟩
    exact ⟨hs, c, hc, hd⟩
  · rintro ⟨hs, c, hc, hd⟩
    exact ⟨c, ⟨World.inBounds_of_canEnter (World.canEnter_of_leads hd.1.leads hs), hc⟩, hs, hd⟩

/-- The nearest cell beside a pickup is as far away as the fewest moves to any such cell. -/
theorem movesToPickup?_eq_some (hf : f.IsLawful) :
    movesToPickup? f w start = some d ↔
      w.canEnter start ∧ IsLeast {n | ∃ c, w.isBeside c .pickup ∧ w.graph.LeadsIn n start c} d := by
  unfold movesToPickup?
  dsimp only
  rw [List.min?_eq_some_iff]
  constructor
  · rintro ⟨hd, hleast⟩
    obtain ⟨hs, c, hc, haway⟩ := (mem_distances hf).mp hd
    refine ⟨hs, ⟨c, hc, haway.1⟩, ?_⟩
    rintro n ⟨g, hg, hn⟩
    obtain ⟨k, hk, hnear⟩ := hn.exists_away
    exact (hleast k ((mem_distances hf).mpr ⟨hs, g, hg, hnear⟩)).trans hk
  · rintro ⟨hs, ⟨c, hc, hd⟩, hleast⟩
    have haway : w.graph.IsAway start d c := ⟨hd, fun n hn => hleast ⟨c, hc, hn⟩⟩
    refine ⟨(mem_distances hf).mpr ⟨hs, c, hc, haway⟩, ?_⟩
    intro n hn
    obtain ⟨_, g, hg, hnear⟩ := (mem_distances hf).mp hn
    exact hleast ⟨g, hg, hnear.1⟩

theorem movesToPickup?_eq_none (hf : f.IsLawful) :
    movesToPickup? f w start = none ↔
      (w.canEnter start → ∀ c, w.isBeside c .pickup → ¬w.graph.Leads start c) := by
  unfold movesToPickup?
  dsimp only
  rw [List.min?_eq_none_iff, List.eq_nil_iff_forall_not_mem]
  constructor
  · intro h hs c hc hl
    obtain ⟨n, hn⟩ := hl.exists_count
    obtain ⟨k, _, hk⟩ := hn.exists_away
    exact h k ((mem_distances hf).mpr ⟨hs, c, hc, hk⟩)
  · intro h n hn
    obtain ⟨hs, c, hc, haway⟩ := (mem_distances hf).mp hn
    exact h hs c hc haway.1.leads

/-- On a solvable level some moves lead to a pickup. -/
theorem movesToPickup?_of_solvable (hf : f.IsLawful) (h : w.isSolvableBy f start) :
    movesToPickup? f w start ≠ none := by
  obtain ⟨⟨c, hr, hc⟩, _⟩ := World.isSolvableBy_iff.mp h
  obtain ⟨hs, hl⟩ := (World.mem_reachableBy hf).mp hr
  intro hnone
  exact (movesToPickup?_eq_none hf).mp hnone hs c hc hl

end Cli

/-- An engine at rest on a cell, without cargo. -/
def Engine.emptyAt (e : Engine) (c : Cell) : Engine :=
  let s : Stance := ⟨c, e.committed.heading, .bool false⟩
  { e with committed := s, shown := .still s }

/-- The cells where a pickup without cargo succeeds. -/
def Engine.pickupSpots (e : Engine) : Set Cell :=
  {c | ∃ p, (Performance.start (e.emptyAt c)).perform .pickup = (.ok (.handled true), p)}

theorem Engine.mem_pickupSpots {e : Engine} (hm : e.settings.IsTimely) {c : Cell} :
    c ∈ e.pickupSpots ↔ e.world.isBeside c .pickup := by
  obtain ⟨q, hq, _⟩ :=
    Performance.perform_ok (Performance.start_isClear (e.emptyAt c)) hm.isPaced .pickup
  unfold pickupSpots
  rw [Set.mem_ofPred_eq, hq]
  have hworld : (Performance.start (e.emptyAt c)).engine.world = e.world := rfl
  have hstance : (Performance.start (e.emptyAt c)).engine.committed =
    ⟨c, e.committed.heading, .bool false⟩ := rfl
  rw [hworld, hstance]
  by_cases hb : e.world.isBeside c .pickup <;>
    simp [Action.feat, hb, Stance.isCarrying, Json.Value.isFilled]

section Report

variable {f : PathFinder} {w : World} {m : MotionSettings}

/-- An engine can be made without a pose if the agent may stand on the start, and rests there. -/
theorem Engine.make_start {e : Engine} :
    make w none m = .ok e ↔ w.canEnter (Stance.start w.height).cell ∧
      e = ⟨w, m, .start w.height, .still (.start w.height), [], 0, []⟩ := by
  have hmake : make w none m = (checkStart w (.start w.height)).map
      (fun _ => ⟨w, m, .start w.height, .still (.start w.height), [], 0, []⟩) := by
    unfold make startStance
    dsimp only
    rw [ok_bind]
    cases checkStart w (.start w.height) <;> rfl
  rw [hmake, checkStart, require]
  by_cases hs : w.canEnter (Stance.start w.height).cell
  · rw [if_pos hs]
    simp [hs, Except.map, eq_comm]
  · rw [if_neg hs]
    simp [hs, Except.map]

/-- The report on a level tells the least number of cells that a program passes on its way from the
start to where a pickup without cargo succeeds. It tells of none exactly if the agent may not stand
on the start or no program leads it to such a cell, and so never where the level is solvable. The
path finder may be any that is lawful. -/
theorem levelReport_moves (hf : f.IsLawful) (hm : m.IsTimely) (wait : WaitSettings) (w : World) :
    ∃ (ms : Json.Members) (moves solvable : Json.Value), Cli.levelReport f w = .object ms ∧
      Json.lookup ms "moves_to_pickup" = some moves ∧ Json.lookup ms "solvable" = some solvable ∧
      (∀ d : Nat, moves = .int d ↔ ∃ e, Engine.make w none m = .ok e ∧
        IsLeast (e.tolls wait e.pickupSpots) d) ∧
      (moves = .null ↔ w.canEnter (Stance.start w.height).cell = false ∨
        ∃ e, Engine.make w none m = .ok e ∧ e.tolls wait e.pickupSpots = ∅) ∧
      (solvable = .bool true → moves ≠ .null) := by
  let start := (Stance.start w.height).cell
  let moves := Table.optional (fun (n : Nat) => Json.Value.int n) (Cli.movesToPickup? f w start)
  have hint (d : Nat) : moves = .int d ↔ Cli.movesToPickup? f w start = some d := by
    simp only [moves]
    cases Cli.movesToPickup? f w start <;> simp [Table.optional, Json.Value.int]
  have hnull : moves = .null ↔ Cli.movesToPickup? f w start = none := by
    simp only [moves]
    cases Cli.movesToPickup? f w start <;> simp [Table.optional, Json.Value.int]
  let e : Engine := ⟨w, m, .start w.height, .still (.start w.height), [], 0, []⟩
  have hspots : e.pickupSpots = {c | w.isBeside c .pickup} := by
    ext c
    exact Engine.mem_pickupSpots hm
  refine ⟨_, moves, .bool (w.isSolvableBy f start), rfl, rfl, rfl, ?_, ?_, ?_⟩
  · intro d
    have hleast : IsLeast (e.tolls wait e.pickupSpots) d ↔
        IsLeast {n | ∃ c, w.isBeside c .pickup ∧ w.graph.LeadsIn n start c} d := by
      rw [Engine.isLeast_tolls hm, hspots]
      rfl
    rw [hint, Cli.movesToPickup?_eq_some hf, ← hleast]
    simp only [Engine.make_start]
    constructor
    · rintro ⟨hs, hd⟩
      exact ⟨e, ⟨hs, rfl⟩, hd⟩
    · rintro ⟨_, ⟨hs, rfl⟩, hd⟩
      exact ⟨hs, hd⟩
  · have hempty : e.tolls wait e.pickupSpots = ∅ ↔
        ∀ c, w.isBeside c .pickup → ¬w.graph.Leads start c := by
      rw [Engine.tolls_eq_empty hm, hspots]
      rfl
    rw [hnull, Cli.movesToPickup?_eq_none hf, ← hempty]
    simp only [Engine.make_start]
    constructor
    · intro h
      by_cases hs : w.canEnter start
      · exact .inr ⟨e, ⟨hs, rfl⟩, h hs⟩
      · exact .inl (by simpa using hs)
    · rintro (hs | ⟨_, ⟨_, rfl⟩, hd⟩) hc
      · rw [hs] at hc
        cases hc
      · exact hd
  · intro hs
    rw [Ne, hnull]
    exact Cli.movesToPickup?_of_solvable hf (Json.Value.bool.inj hs)

theorem levelReport_moves_depot :
    ∃ e : Engine, Engine.make .depot none .standard = .ok e ∧
      IsLeast (e.tolls .standard e.pickupSpots) 1 := by
  obtain ⟨ms, moves, _, hms, hmoves, _, hint, _, _⟩ :=
    levelReport_moves PathFinder.layered_isLawful MotionSettings.standard_isTimely .standard .depot
  have hnearest : Cli.movesToPickup? .layered .depot (Stance.start 1).cell = some 1 := by decide
  have hone : moves = .int (1 : Nat) := by
    cases Json.Value.object.inj hms
    refine (Option.some.inj hmoves).symm.trans ?_
    exact congrArg (Table.optional fun (n : Nat) => Json.Value.int n) hnearest
  exact (hint 1).mp hone

end Report

end Courier
