import Mathlib.Data.Nat.Find
import Mathlib.Order.Bounds.Basic
import Courier.Proofs.Grid.Reachable

namespace Courier.CellGraph

/-- A path of some number of edges. -/
inductive LeadsIn (g : CellGraph) : Nat → Cell → Cell → Prop
  | nil (c : Cell) : LeadsIn g 0 c c
  | tail {n : Nat} {c d e : Cell} (h : LeadsIn g n c d) (he : e ∈ g.next d) :
    LeadsIn g (n+1) c e

/-- The fewest edges of a path to a node. -/
def IsAway (g : CellGraph) (start : Cell) (n : Nat) (c : Cell) : Prop :=
  IsLeast {k | g.LeadsIn k start c} n

section Chains

variable {g : CellGraph} {c d e start : Cell} {m n : Nat}

theorem LeadsIn.append (h : g.LeadsIn m c d) (k : g.LeadsIn n d e) : g.LeadsIn (m+n) c e := by
  induction k with
  | nil => exact h
  | tail _ he ih => exact .tail (ih h) he

theorem LeadsIn.leads (h : g.LeadsIn n c d) : g.Leads c d := by
  induction h with
  | nil => exact .refl
  | tail _ he ih => exact .tail ih he

theorem Leads.exists_count (h : g.Leads c d) : ∃ n, g.LeadsIn n c d := by
  induction h with
  | refl => exact ⟨0, .nil c⟩
  | tail _ he ih =>
    obtain ⟨n, hn⟩ := ih
    exact ⟨n+1, .tail hn he⟩

/-- What a path leads to has a distance, no larger than the path. -/
theorem LeadsIn.exists_away (h : g.LeadsIn n start c) : ∃ k ≤ n, g.IsAway start k c := by
  classical
  have hex : ∃ k, g.LeadsIn k start c := ⟨n, h⟩
  exact ⟨Nat.find hex, Nat.find_le h, Nat.find_spec hex, fun _ hk => Nat.find_le hk⟩

theorem IsAway.unique (h : g.IsAway start m c) (k : g.IsAway start n c) : m = n :=
  IsLeast.unique h k

/-- On the way to a node each node is one edge nearer. -/
theorem IsAway.exists_before (h : g.IsAway start (n+1) c) :
    ∃ d, g.IsAway start n d ∧ c ∈ g.next d := by
  obtain ⟨hc, hleast⟩ := h
  cases hc with
  | @tail _ _ d _ hd he =>
    refine ⟨d, ⟨hd, ?_⟩, he⟩
    intro k hk
    exact Nat.le_of_succ_le_succ (hleast (.tail hk he))

end Chains

/-- A search that has come so many edges far: its layer holds the nodes at that distance, and those
seen are nearer. -/
structure Layered (g : CellGraph) (start : Cell) (n : Nat) (seen layer : List Cell) : Prop where
  layer : ∀ c, c ∈ layer ↔ g.IsAway start n c
  seen : ∀ c, c ∈ seen ↔ ∃ k < n, g.IsAway start k c

section Layers

variable {g : CellGraph} {start goal : Cell} {seen layer : List Cell} {n : Nat}

theorem layered_start (g : CellGraph) (start : Cell) : Layered g start 0 [] [start] where
  layer c := by
    rw [List.mem_singleton]
    constructor
    · rintro rfl
      exact ⟨.nil _, fun _ _ => Nat.zero_le _⟩
    · rintro ⟨hc, _⟩
      cases hc
      rfl
  seen c := by simp

theorem Layered.mem_append (h : Layered g start n seen layer) (c : Cell) :
    c ∈ layer ++ seen ↔ ∃ k < n+1, g.IsAway start k c := by
  rw [List.mem_append, h.layer, h.seen]
  constructor
  · rintro (hc | ⟨k, hk, hc⟩)
    · exact ⟨n, Nat.lt_succ_self n, hc⟩
    · exact ⟨k, Nat.lt_succ_of_lt hk, hc⟩
  · rintro ⟨k, hk, hc⟩
    rcases Nat.lt_succ_iff_lt_or_eq.mp hk with hlt | rfl
    · exact .inr ⟨k, hlt, hc⟩
    · exact .inl hc

theorem Layered.next (h : Layered g start n seen layer) :
    Layered g start (n+1) (layer ++ seen) (g.nextLayer (layer ++ seen) layer) where
  layer c := by
    rw [mem_nextLayer, h.mem_append]
    constructor
    · rintro ⟨⟨d, hd, he⟩, hfar⟩
      refine ⟨.tail ((h.layer d).mp hd).1 he, ?_⟩
      intro k hk
      -- a nearer node would have been seen
      by_contra hlt
      obtain ⟨j, hj, hc⟩ := LeadsIn.exists_away hk
      exact hfar ⟨j, by omega, hc⟩
    · intro hc
      obtain ⟨d, hd, he⟩ := hc.exists_before
      refine ⟨⟨d, (h.layer d).mpr hd, he⟩, ?_⟩
      rintro ⟨k, hk, hnear⟩
      have heq := hnear.unique hc
      omega
  seen := h.mem_append

/-- The place of a node among the layers is its distance. -/
theorem Layered.isAway_of_findIdx (h : Layered g start n seen layer) {fuel i : Nat}
    (hi : (g.layersFrom fuel seen layer).findIdx? (·.contains goal) = some i) :
    g.IsAway start (n+i) goal := by
  induction fuel generalizing n seen layer i with
  | zero => simp [layersFrom] at hi
  | succ fuel ih =>
    unfold layersFrom at hi
    by_cases he : layer.isEmpty
    · simp [he] at hi
    · rw [if_neg he, List.findIdx?_cons] at hi
      split at hi
      · next hc =>
        cases hi
        exact (h.layer goal).mp (List.contains_iff_mem.mp hc)
      · obtain ⟨j, hj, rfl⟩ := Option.map_eq_some_iff.mp hi
        have hj := ih h.next hj
        rwa [Nat.add_assoc, Nat.add_comm 1 j] at hj

/-- The search finds a node in the layer of its distance. -/
theorem findIdx_layers {d : Nat} (hs : start ∈ g.nodes) :
    (g.layers start).findIdx? (·.contains goal) = some d ↔ g.IsAway start d goal := by
  have haway {k : Nat} (hk : (g.layers start).findIdx? (·.contains goal) = some k) :
      g.IsAway start k goal := by
    have h := (layered_start g start).isAway_of_findIdx hk
    rwa [Nat.zero_add] at h
  constructor
  · exact haway
  · intro hd
    obtain ⟨layer, hl, hg⟩ := List.mem_flatten.mp ((mem_layers hs).mpr hd.1.leads)
    cases hfind : (g.layers start).findIdx? (·.contains goal) with
    | some k => rw [(haway hfind).unique hd]
    | none =>
      have hnone := List.findIdx?_eq_none_iff.mp hfind layer hl
      rw [List.contains_iff_mem.mpr hg] at hnone
      cases hnone

end Layers

end Courier.CellGraph
