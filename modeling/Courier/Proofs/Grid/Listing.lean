import Courier.Grid.Entry
import Courier.Proofs.Grid.LevelForm
import Courier.Proofs.Json.Equality
import Courier.Proofs.Number.Span

namespace Courier

open Json (Value)

theorem mapM_ok {α β ε : Type} {g : α → Except ε β} {k : α → β} {as : List α}
    (h : ∀ a ∈ as, g a = .ok (k a)) : as.mapM g = .ok (as.map k) := by
  induction as with
  | nil => rfl
  | cons a as ih =>
    rw [List.mapM_cons, h a (by simp), ok_bind, ih (fun b hb => h b (by simp [hb]))]
    rfl

theorem filterMapM_none {α β ε : Type} {g : α → Except ε (Option β)} {as : List α}
    (h : ∀ a ∈ as, g a = .ok none) : as.filterMapM g = .ok [] := by
  induction as with
  | nil => rfl
  | cons a as ih =>
    rw [List.filterMapM_cons, h a (by simp), ok_bind]
    exact ih (fun b hb => h b (by simp [hb]))

namespace World

/-- The entry of a placement among listed cells. -/
def Placement.entry (p : Placement) : CellEntry :=
  ⟨⟨.int p.cell.1, .int p.cell.2⟩, p.kind, .object p.note⟩

theorem ofFn_congr {width height : Nat} {f g : Nat → Nat → Kind} {notes : List (Cell × Meta)}
    {hw : 0 < width} {hh : 0 < height} (h : ∀ i j, i < width → j < height → f i j = g i j) :
    ofFn width height f notes hw hh = ofFn width height g notes hw hh := by
  unfold ofFn
  congr 1
  refine congrArg Array.ofFn (funext fun n => ?_)
  exact h _ _ (Nat.mod_lt _ hw) (Nat.div_lt_of_lt_mul n.isLt)

theorem sized_eq {width height : Nat} (f : Nat → Nat → Kind) (notes : List (Cell × Meta))
    (hw : 0 < width) (hh : 0 < height) :
    sized width height f notes = .ok (ofFn width height f notes hw hh) := dif_pos ⟨hw, hh⟩

/-- Placements without notes that give a grid these kinds; an empty cell may be left out. -/
structure Fills (width height : Nat) (f : Nat → Nat → Kind) (ps : List Placement) : Prop where
  sound : ∀ p ∈ ps, ∃ i j : Nat, i < width ∧ j < height ∧ p = ⟨((i : Int), (j : Int)), f i j, []⟩
  complete : ∀ i j : Nat, i < width → j < height → f i j ≠ .empty →
    ⟨((i : Int), (j : Int)), f i j, []⟩ ∈ ps

namespace Fills

variable {width height : Nat} {f : Nat → Nat → Kind} {ps : List Placement}
  (h : Fills width height f ps)

include h

/-- What stands at a cell inside of the grid is what is placed there. -/
theorem find?_cell {i j : Nat} (hi : i < width) (hj : j < height) :
    ((ps.find? (fun p => p.cell = ((i : Int), (j : Int)))).map (·.kind)).getD .empty = f i j := by
  cases hfind : ps.find? (fun p => p.cell = ((i : Int), (j : Int))) with
  | none =>
    by_contra hne
    have hmem := h.complete i j hi hj (fun he => hne he.symm)
    exact List.find?_eq_none.mp hfind _ hmem (decide_eq_true rfl)
  | some p =>
    have hcell := List.find?_some hfind
    obtain ⟨i', j', _, _, rfl⟩ := h.sound p (List.mem_of_find?_eq_some hfind)
    simp only [decide_eq_true_eq, Prod.mk.injEq, Int.natCast_inj] at hcell
    obtain ⟨rfl, rfl⟩ := hcell
    rfl

theorem notes : ps.filter (fun p => !p.note.isEmpty) = [] := by
  refine List.filter_eq_nil_iff.mpr fun p hp => ?_
  obtain ⟨i, j, _, _, rfl⟩ := h.sound p hp
  simp

theorem ofCells (hw : 0 < width) (hh : 0 < height) :
    ofCells width height ps = .ok (ofFn width height f [] hw hh) := by
  have hnone : outside? width height ps = none := by
    unfold outside?
    rw [Option.map_eq_none_iff, List.find?_eq_none]
    intro p hp
    obtain ⟨i, j, hi, hj, rfl⟩ := h.sound p hp
    simp [hi, hj]
  have hsize : ¬((width : Int) < 1 ∨ (height : Int) < 1) := by omega
  unfold World.ofCells
  rw [if_neg hsize, hnone]
  dsimp only
  rw [h.notes, List.map_nil, sized_eq _ _ hw hh, ofFn_congr (fun i j hi hj => h.find?_cell hi hj)]

theorem of_mem_iff {qs : List Placement} (hqs : ∀ p, p ∈ qs ↔ p ∈ ps) :
    Fills width height f qs where
  sound p hp := h.sound p ((hqs p).mp hp)
  complete i j hi hj hne := (hqs _).mpr (h.complete i j hi hj hne)

theorem unique {p q : Placement} (hp : p ∈ ps) (hq : q ∈ ps) (hcell : p.cell = q.cell) :
    p = q := by
  obtain ⟨i, j, _, _, rfl⟩ := h.sound p hp
  obtain ⟨i', j', _, _, rfl⟩ := h.sound q hq
  simp only [Prod.mk.injEq, Int.natCast_inj] at hcell
  obtain ⟨rfl, rfl⟩ := hcell
  rfl

end Fills

-- Cells that are listed with their places.

section Listed

variable {ps done : List Placement} {width height : Nat} {f : Nat → Nat → Kind}

theorem same_entry {p q : Placement} :
    p.entry.position.same q.entry.position ↔ p.cell = q.cell := by
  unfold Position.same
  rw [Bool.and_eq_true]
  exact (and_congr Value.equal_int Value.equal_int).trans Prod.ext_iff.symm

/-- If no two placements differ on one cell, all of them are kept. -/
theorem foldl_place
    (h : ∀ p q, (p ∈ done ∨ p ∈ ps) → (q ∈ done ∨ q ∈ ps) → p.cell = q.cell → p = q) :
    ∃ qs : List Placement,
      (ps.map Placement.entry).foldl CellEntry.place (done.map Placement.entry) =
        qs.map Placement.entry ∧ ∀ p, p ∈ qs ↔ p ∈ done ∨ p ∈ ps := by
  induction ps generalizing done with
  | nil => exact ⟨done, rfl, by simp⟩
  | cons p ps ih =>
    rw [List.map_cons, List.foldl_cons, CellEntry.place]
    split
    · next hany =>
      obtain ⟨_, hd, hsame⟩ := List.any_eq_true.mp hany
      obtain ⟨d, hmem, rfl⟩ := List.mem_map.mp hd
      obtain rfl := h d p (.inl hmem) (.inr (by simp)) (same_entry.mp hsame)
      -- only the placement itself is replaced
      have hkeep : (done.map Placement.entry).map (fun e =>
          if e.position.same d.entry.position then { d.entry with position := e.position } else e) =
          done.map Placement.entry := by
        rw [List.map_map]
        refine List.map_congr_left fun q hq => ?_
        rw [Function.comp_apply]
        split
        · next hs =>
          obtain rfl := h q d (.inl hq) (.inl hmem) (same_entry.mp hs)
          rfl
        · rfl
      rw [hkeep]
      obtain ⟨qs, hqs, hall⟩ := ih (fun a b ha hb => h a b (ha.imp_right (List.mem_cons_of_mem d))
        (hb.imp_right (List.mem_cons_of_mem d)))
      refine ⟨qs, hqs, fun a => (hall a).trans ?_⟩
      rw [List.mem_cons]
      constructor
      · exact Or.imp_right .inr
      · rintro (ha | rfl | ha)
        · exact .inl ha
        · exact .inl hmem
        · exact .inr ha
    · have happend : done.map Placement.entry ++ [p.entry] = (done ++ [p]).map Placement.entry := by
        rw [List.map_append]
        rfl
      have hsplit (a : Placement) : (a ∈ done ++ [p] ∨ a ∈ ps) ↔ (a ∈ done ∨ a ∈ p :: ps) := by
        rw [List.mem_append, List.mem_singleton, List.mem_cons, or_assoc]
      rw [happend]
      obtain ⟨qs, hqs, hall⟩ := @ih (done ++ [p])
        (fun a b ha hb => h a b ((hsplit a).mp ha) ((hsplit b).mp hb))
      exact ⟨qs, hqs, fun a => (hall a).trans (hsplit a)⟩

theorem isWithin_int {n size : Nat} (h : n < size) :
    Position.isWithin (.int size) (.int n) = .ok true := by
  have hlow : Number.le (.int 0) (.int n) = true := Number.le_int.mpr (by omega)
  have hhigh : Number.lt (.int n) (.int size) = true := Number.lt_int.mpr (by omega)
  change Except.ok (Number.le (.int 0) (.int n) && Number.lt (.int n) (.int size)) = _
  rw [hlow, hhigh]
  rfl

theorem dimensionsOf_ok (hw : 0 < width) (hh : 0 < height) (hroom : width*height ≤ maxCells) :
    dimensionsOf (.int width) (.int height) = .ok (width, height) := by
  have hsize {n : Nat} (hn : 0 < n) : checkSize (.int n) = .ok () := by
    have hlt : ¬Number.lt (.int n) (.int 1) = true := by
      rw [Number.lt_int]
      omega
    exact if_neg hlt
  have hcount (n : Nat) : sizeOf (.int n) = .ok n := rfl
  have hmany : ¬1 <<< 63 ≤ width*height := by
    have : maxCells < 1 <<< 63 := by decide
    omega
  unfold dimensionsOf
  rw [hsize hw, ok_bind, hsize hh, ok_bind, hcount, ok_bind, hcount, ok_bind, if_neg hmany]
  rw [if_neg (by omega)]
  rfl

theorem Fills.ofEntries (h : Fills width height f ps) (hw : 0 < width) (hh : 0 < height)
    (hroom : width*height ≤ maxCells) :
    ofEntries (.int width) (.int height) (ps.map Placement.entry) =
      .ok (ofFn width height f [] hw hh) := by
  obtain ⟨qs, hqs, hall⟩ := @foldl_place ps []
    (fun p q hp hq => h.unique (by simpa using hp) (by simpa using hq))
  have hmem (p : Placement) : p ∈ qs ↔ p ∈ ps := (hall p).trans (by simp)
  have hqs' := h.of_mem_iff hmem
  have hcells : (qs.map Placement.entry).mapM (fun e : CellEntry =>
      do return (← e.cells width height, e.kind)) =
      (.ok ((qs.map Placement.entry).map (fun e =>
        ([(e.position.cell?.getD (0, 0))], e.kind))) : Except Fault _) := by
    refine mapM_ok fun e he => ?_
    obtain ⟨p, hp, rfl⟩ := List.mem_map.mp he
    obtain ⟨i, j, hi, hj, rfl⟩ := hqs'.sound p hp
    have hin : (Position.mk (.int i) (.int j)).isInside (.int width) (.int height) = .ok true := by
      unfold Position.isInside
      rw [isWithin_int hi, ok_bind, if_pos rfl, isWithin_int hj]
    unfold CellEntry.cells Placement.entry
    dsimp only
    rw [hin]
    rfl
  have hnotes : (qs.map Placement.entry).filterMapM (·.note?) = .ok [] := by
    refine filterMapM_none fun e he => ?_
    obtain ⟨p, hp, rfl⟩ := List.mem_map.mp he
    obtain ⟨i, j, _, _, rfl⟩ := hqs'.sound p hp
    rfl
  have hback : Fills width height f qs.reverse := hqs'.of_mem_iff fun p => List.mem_reverse
  unfold World.ofEntries
  rw [dimensionsOf_ok hw hh hroom, ok_bind]
  dsimp only
  rw [show ([] : List CellEntry) = [].map Placement.entry from rfl, hqs, hcells, ok_bind, hnotes,
    ok_bind, sized_eq _ _ hw hh]
  refine congrArg Except.ok (ofFn_congr fun i j hi hj => ?_)
  rw [← hback.find?_cell hi hj, List.map_map, ← List.map_reverse, List.find?_map, Option.map_map]
  have hcell (p : Placement) : p.entry.position.cell? = some p.cell := rfl
  have htest : ((fun r : List Cell × Kind => r.1.contains ((i : Int), (j : Int))) ∘
      ((fun e : CellEntry => ([e.position.cell?.getD (0, 0)], e.kind)) ∘ Placement.entry)) =
      fun p => decide (p.cell = ((i : Int), (j : Int))) := by
    funext p
    simp [hcell, eq_comm]
  rw [htest]
  rfl

end Listed

end World

end Courier
