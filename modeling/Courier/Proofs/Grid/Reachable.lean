import Mathlib.Data.Finset.Card
import Mathlib.Logic.Relation
import Courier.Grid.Reach

namespace Courier.CellGraph

variable {g : CellGraph} {start c d : Cell} {seen layer : List Cell}

/-- A path. -/
def Leads (g : CellGraph) : Cell → Cell → Prop := Relation.ReflTransGen (fun c d => d ∈ g.next c)

theorem Leads.mem_nodes (h : g.Leads c d) (hc : c ∈ g.nodes) : d ∈ g.nodes := by
  induction h with
  | refl => exact hc
  | tail _ he ih => exact g.closed _ ih _ he

theorem Leads.symm (h : g.Leads c d) (hc : c ∈ g.nodes) : g.Leads d c := by
  induction h with
  | refl => exact .refl
  | tail hl he ih => exact .head (g.symm _ (Leads.mem_nodes hl hc) _ he) ih

/-- There is only so much room for nodes. -/
theorem card_le {cs : List Cell} (h : ∀ c ∈ cs, c ∈ g.nodes) :
    cs.toFinset.card ≤ g.nodes.length := by
  have hsub : cs.toFinset ⊆ g.nodes.toFinset := by
    intro c hc
    rw [List.mem_toFinset] at hc ⊢
    exact h c hc
  calc cs.toFinset.card ≤ g.nodes.toFinset.card := Finset.card_le_card hsub
    _ ≤ g.nodes.length := List.toFinset_card_le _

/-- A search between two layers: nothing is seen twice, and all nodes joined to those seen are seen
or in the layer. -/
structure Search (g : CellGraph) (seen layer : List Cell) : Prop where
  unseen : ∀ c ∈ layer, c ∉ seen
  inside : ∀ c ∈ layer ++ seen, c ∈ g.nodes
  closed : ∀ c ∈ seen, ∀ d ∈ g.next c, d ∈ layer ++ seen

theorem mem_nextLayer :
    c ∈ g.nextLayer seen layer ↔ (∃ d ∈ layer, c ∈ g.next d) ∧ c ∉ seen := by
  simp [nextLayer, List.mem_eraseDups]

theorem Search.next (h : Search g seen layer) :
    Search g (layer ++ seen) (g.nextLayer (layer ++ seen) layer) where
  unseen c hc := (mem_nextLayer.mp hc).2
  inside c hc := by
    rcases List.mem_append.mp hc with hc | hc
    · obtain ⟨⟨d, hd, he⟩, _⟩ := mem_nextLayer.mp hc
      exact g.closed d (h.inside d (List.mem_append_left _ hd)) c he
    · exact h.inside c hc
  closed c hc d hd := by
    by_cases hs : d ∈ layer ++ seen
    · exact List.mem_append_right _ hs
    · rcases List.mem_append.mp hc with hc | hc
      · exact List.mem_append_left _ (mem_nextLayer.mpr ⟨⟨c, hc, hd⟩, hs⟩)
      · exact absurd (h.closed c hc d hd) hs

/-- Each layer adds to the nodes seen. -/
theorem Search.card_lt (h : Search g seen layer) (hl : layer ≠ []) :
    seen.toFinset.card < (layer ++ seen).toFinset.card := by
  obtain ⟨c, cs, rfl⟩ := List.exists_cons_of_ne_nil hl
  have hc := h.unseen c (by simp)
  refine Finset.card_lt_card (Finset.ssubset_iff_subset_ne.mpr ⟨?_, ?_⟩)
  · intro d hd
    simp only [List.mem_toFinset] at hd ⊢
    exact List.mem_append_right _ hd
  · intro he
    have hm : c ∈ (c :: cs ++ seen).toFinset := by simp
    rw [← he, List.mem_toFinset] at hm
    exact hc hm

/-- No edge leads out of the nodes that a search finds. -/
theorem layersFrom_closed (h : Search g seen layer) {fuel : Nat}
    (hf : g.nodes.length < seen.toFinset.card + fuel) :
    ∀ c ∈ (g.layersFrom fuel seen layer).flatten ++ seen, ∀ d ∈ g.next c,
      d ∈ (g.layersFrom fuel seen layer).flatten ++ seen := by
  induction fuel generalizing seen layer with
  | zero =>
    have hle : seen.toFinset.card ≤ g.nodes.length :=
      card_le (fun c hc => h.inside c (by simp [hc]))
    omega
  | succ fuel ih =>
    unfold layersFrom
    by_cases hl : layer = []
    · subst hl
      simpa using h.closed
    · have hlt := h.card_lt hl
      have hi := ih h.next (by omega)
      have he : layer.isEmpty = false := by simpa using hl
      simp only [he, List.flatten_cons, List.append_assoc, Bool.false_eq_true, if_false]
      intro c hc d hd
      have hm := hi c (by simp only [List.mem_append] at hc ⊢; tauto) d hd
      simp only [List.mem_append] at hm ⊢
      tauto

/-- A search only finds nodes that its first layer leads to. -/
theorem layersFrom_leads {fuel : Nat} (hc : c ∈ (g.layersFrom fuel seen layer).flatten) :
    ∃ s ∈ layer, g.Leads s c := by
  induction fuel generalizing seen layer with
  | zero => simp [layersFrom] at hc
  | succ fuel ih =>
    unfold layersFrom at hc
    by_cases he : layer.isEmpty
    · simp [he] at hc
    · simp only [he, List.flatten_cons, Bool.false_eq_true, if_false, List.mem_append] at hc
      rcases hc with hc | hc
      · exact ⟨c, hc, .refl⟩
      · obtain ⟨d, hd, hl⟩ := ih hc
        obtain ⟨⟨s, hs, hx⟩, _⟩ := mem_nextLayer.mp hd
        exact ⟨s, hs, .head hx hl⟩

theorem layer_subset_layersFrom {fuel : Nat} (hc : c ∈ layer) :
    c ∈ (g.layersFrom (fuel+1) seen layer).flatten := by
  have he : layer.isEmpty = false := by
    cases layer with
    | nil => simp at hc
    | cons d ds => rfl
  unfold layersFrom
  simp only [he, List.flatten_cons, Bool.false_eq_true, if_false]
  exact List.mem_append_left _ hc

/-- The search finds exactly the nodes that paths lead to. -/
theorem mem_layers (hs : start ∈ g.nodes) : c ∈ (g.layers start).flatten ↔ g.Leads start c := by
  have hsearch : Search g [] [start] := ⟨by simp, by simpa using hs, by simp⟩
  unfold layers
  constructor
  · intro hc
    obtain ⟨d, hd, hl⟩ := layersFrom_leads hc
    rwa [List.mem_singleton.mp hd] at hl
  · intro hl
    have hfuel : g.nodes.length < ([] : List Cell).toFinset.card + (g.nodes.length+1) := by
      rw [List.toFinset_nil, Finset.card_empty]
      omega
    have hclosed := layersFrom_closed hsearch hfuel
    simp only [List.append_nil] at hclosed
    induction hl with
    | refl => exact layer_subset_layersFrom (by simp)
    | tail _ he ih => exact hclosed _ ih _ he

end Courier.CellGraph
