import Courier.Proofs.Grid.Distance

namespace Courier

/-- A path finder that does what it says: the component of a node holds exactly the nodes that paths
from it lead to, and a distance is the fewest edges of a path. -/
structure PathFinder.IsLawful (f : PathFinder) : Prop where
  mem_component : ∀ (g : CellGraph) (start c : Cell), start ∈ g.nodes →
    (c ∈ f.component g start ↔ g.Leads start c)
  distance_eq : ∀ (g : CellGraph) (start goal : Cell) (d : Nat), start ∈ g.nodes →
    goal ∈ g.nodes → (f.distance? g start goal = some d ↔ g.IsAway start d goal)

theorem PathFinder.layered_isLawful : layered.IsLawful where
  mem_component _ _ _ hs := CellGraph.mem_layers hs
  distance_eq _ _ _ _ hs _ := CellGraph.findIdx_layers hs

namespace World

variable {w : World} {start goal c d : Cell} {f : PathFinder}

theorem mem_nodes : c ∈ w.graph.nodes ↔ w.canEnter c := mem_standable

theorem canEnter_of_leads (h : w.graph.Leads c d) (hc : w.canEnter c) : w.canEnter d :=
  mem_nodes.mp (h.mem_nodes (mem_nodes.mpr hc))

/-- The passages are the edges of the graph. -/
theorem mem_passages :
    (c, d) ∈ w.passages ∨ (d, c) ∈ w.passages ↔ c ∈ w.graph.nodes ∧ d ∈ w.graph.next c := by
  have hmem (a b : Cell) : (a, b) ∈ w.passages ↔
      w.canEnter a ∧ (b = (a.1, a.2+1) ∨ b = (a.1+1, a.2)) ∧ w.canEnter b := by
    simp [passages, mem_standable]
  have hnext : d ∈ w.graph.next c ↔ d ∈ beside c ∧ w.canEnter d := List.mem_filter
  have hbeside : d ∈ beside c ↔ (d = (c.1, c.2+1) ∨ d = (c.1+1, c.2)) ∨
      (c = (d.1, d.2+1) ∨ c = (d.1+1, d.2)) := by
    simp only [beside, List.mem_cons, List.not_mem_nil, or_false, Prod.ext_iff]
    omega
  rw [hmem, hmem, mem_nodes, hnext, hbeside]
  tauto

theorem mem_reachableBy (hf : f.IsLawful) :
    c ∈ w.reachableBy f start ↔ w.canEnter start ∧ w.graph.Leads start c := by
  unfold reachableBy
  by_cases hs : start ∈ w.graph.nodes
  · rw [if_pos (List.contains_iff_mem.mpr hs), hf.mem_component _ _ _ hs]
    simp [mem_nodes.mp hs]
  · rw [if_neg (mt List.contains_iff_mem.mp hs)]
    simp [mt mem_nodes.mpr hs]

/-- From a reachable cell every other one can be reached. -/
theorem leads_of_reachableBy (hf : f.IsLawful) (hc : c ∈ w.reachableBy f start)
    (hd : d ∈ w.reachableBy f start) : w.graph.Leads c d := by
  obtain ⟨hs, hc⟩ := (mem_reachableBy hf).mp hc
  exact (hc.symm (mem_nodes.mpr hs)).trans ((mem_reachableBy hf).mp hd).2

theorem isSolvableBy_iff :
    w.isSolvableBy f start ↔
      (∃ c ∈ w.reachableBy f start, w.isBeside c .pickup) ∧
        ∃ c ∈ w.reachableBy f start, w.isBeside c .dropoff := by
  simp [isSolvableBy]

/-- A start where the agent may not stand has no solution, whatever the path finder does. -/
theorem isSolvableBy_of_not_canEnter (h : ¬w.canEnter start) :
    w.isSolvableBy f start = false := by
  have hs : start ∉ w.graph.nodes := mt mem_nodes.mp h
  unfold isSolvableBy reachableBy
  rw [if_neg (mt List.contains_iff_mem.mp hs)]
  rfl

/-- A distance is the least number of moves between two cells where the agent may stand. -/
theorem distanceBy?_eq_some (hf : f.IsLawful) {n : Nat} :
    w.distanceBy? f start goal = some n ↔ w.canEnter start ∧ w.graph.IsAway start n goal := by
  unfold distanceBy?
  by_cases hs : start ∈ w.graph.nodes
  · by_cases hg : goal ∈ w.graph.nodes
    · rw [if_pos (by simp [hs, hg]), hf.distance_eq _ _ _ _ hs hg]
      simp [mem_nodes.mp hs]
    · rw [if_neg (by simp [hg])]
      have hn : ¬w.graph.IsAway start n goal := fun h => hg (h.1.leads.mem_nodes hs)
      simp [hn]
  · rw [if_neg (by simp [hs])]
    simp [mt mem_nodes.mpr hs]

/-- There is none where the agent may not stand, or where no moves lead. -/
theorem distanceBy?_eq_none (hf : f.IsLawful) :
    w.distanceBy? f start goal = none ↔ (w.canEnter start → ¬w.graph.Leads start goal) := by
  constructor
  · intro h hs hl
    obtain ⟨k, hk⟩ := hl.exists_count
    obtain ⟨n, _, hn⟩ := hk.exists_away
    rw [(distanceBy?_eq_some hf).mpr ⟨hs, hn⟩] at h
    cases h
  · intro h
    cases hd : w.distanceBy? f start goal with
    | none => rfl
    | some n =>
      obtain ⟨hs, haway⟩ := (distanceBy?_eq_some hf).mp hd
      exact absurd haway.1.leads (h hs)

end World

end Courier
