import Mathlib.Data.List.Find
import Mathlib.Data.List.Range
import Courier.Grid.Level
import Courier.Proofs.Grid.Reachable

namespace Courier

namespace World

open Json (Value)

variable {w : World} {c : Cell}

section Cells

theorem inBounds_iff : w.inBounds c ↔ 0 ≤ c.1 ∧ c.1 < w.width ∧ 0 ≤ c.2 ∧ c.2 < w.height := by
  simp only [inBounds, Bool.and_eq_true, decide_eq_true_eq]
  omega

theorem kindAt?_outside (h : ¬w.inBounds c) : w.kindAt? c = none := by
  unfold kindAt?
  rw [if_neg h]

theorem index_lt (h : w.inBounds c) : c.2.toNat*w.width + c.1.toNat < w.width*w.height := by
  obtain ⟨hx, hxw, hy, hyh⟩ := inBounds_iff.mp h
  have hx' : c.1.toNat < w.width := by omega
  have hy' : c.2.toNat + 1 ≤ w.height := by omega
  calc c.2.toNat*w.width + c.1.toNat < c.2.toNat*w.width + w.width := by omega
    _ = (c.2.toNat + 1)*w.width := (Nat.succ_mul _ _).symm
    _ ≤ w.height*w.width := Nat.mul_le_mul_right _ hy'
    _ = w.width*w.height := Nat.mul_comm _ _

/-- Every cell inside of the grid has a kind. -/
theorem kindAt?_inside (h : w.inBounds c) : w.kindAt? c = some ((w.kindAt? c).getD .empty) := by
  have hlt : c.2.toNat*w.width + c.1.toNat < w.kinds.size := by
    rw [w.size_eq]
    exact index_lt h
  unfold kindAt?
  rw [if_pos h, Array.getElem?_eq_getElem hlt]
  rfl

theorem kindAt?_ofFn {width height : Nat} {f : Nat → Nat → Kind} {notes : List (Cell × Meta)}
    {hw : 0 < width} {hh : 0 < height} (h : (ofFn width height f notes hw hh).inBounds c) :
    (ofFn width height f notes hw hh).kindAt? c = some (f c.1.toNat c.2.toNat) := by
  have hlt : c.2.toNat*width + c.1.toNat < width*height := index_lt h
  have hx : c.1.toNat < width := by
    obtain ⟨hx, hxw, _, _⟩ := inBounds_iff.mp h
    have : c.1 < (width : Int) := hxw
    omega
  have hmod : (c.2.toNat*width + c.1.toNat) % width = c.1.toNat := by
    rw [Nat.mul_comm, Nat.mul_add_mod, Nat.mod_eq_of_lt hx]
  have hdiv : (c.2.toNat*width + c.1.toNat) / width = c.2.toNat := by
    rw [Nat.mul_comm, Nat.mul_add_div hw, Nat.div_eq_of_lt hx, Nat.add_zero]
  unfold kindAt?
  rw [if_pos h]
  simp only [ofFn, Array.getElem?_ofFn]
  rw [dif_pos hlt, hmod, hdiv]

end Cells

-- The placements that the rows of a world are read as.

/-- A cell as a placement. -/
def placement (w : World) (c : Cell) : Placement where
  cell := c
  kind := (w.kindAt? c).getD .empty
  note := (w.noteAt? c).getD []

/-- All cells, row by row. -/
def rowCells (w : World) : List Cell :=
  (List.range' 0 w.height).flatMap (fun (j : Nat) =>
    (List.range' 0 w.width).map (fun (i : Nat) => ((i : Int), (j : Int))))

def entryAt (w : World) (c : Cell) : Value := w.cellEntry c ((w.kindAt? c).getD .empty)

def rowAt (w : World) (j : Nat) : Value :=
  .list ((List.range' 0 w.width).map (fun (i : Nat) => w.entryAt ((i : Int), (j : Int))))

theorem mem_rowCells : c ∈ w.rowCells ↔ w.inBounds c := by
  obtain ⟨x, y⟩ := c
  simp only [rowCells, List.mem_flatMap, List.mem_map, List.mem_range'_1, inBounds_iff,
    Prod.mk.injEq]
  constructor
  · rintro ⟨j, hj, i, hi, rfl, rfl⟩
    omega
  · intro h
    exact ⟨y.toNat, by omega, x.toNat, by omega, by omega, by omega⟩

theorem rowEntries_eq (w : World) : w.rowEntries = .list ((List.range' 0 w.height).map w.rowAt) := by
  simp only [rowEntries, rows, List.map_map, List.range_eq_range']
  rfl

theorem entryPlacement_entryAt (w : World) (nanEqual : Bool) (i j : Nat) :
    entryPlacement nanEqual i j (w.entryAt ((i : Int), (j : Int))) =
      .ok (w.placement ((i : Int), (j : Int))) := by
  unfold entryAt cellEntry placement
  generalize (w.kindAt? ((i : Int), (j : Int))).getD .empty = k
  cases w.noteAt? ((i : Int), (j : Int)) with
  | none => cases k <;> rfl
  | some m =>
    cases m with
    | nil => cases k <;> rfl
    | cons m ms => cases k <;> rfl

theorem rowPlacements_rowAt (w : World) (nanEqual : Bool) (j i n : Nat) :
    rowPlacements nanEqual j i
        ((List.range' i n).map (fun (i : Nat) => w.entryAt ((i : Int), (j : Int)))) =
      .ok ((List.range' i n).map (fun (i : Nat) => w.placement ((i : Int), (j : Int)))) := by
  induction n generalizing i with
  | zero => rfl
  | succ n ih =>
    rw [List.range'_succ, List.map_cons, List.map_cons, rowPlacements,
      entryPlacement_entryAt, ok_bind, ih (i+1)]
    rfl

theorem rowsPlacements_rows (w : World) (nanEqual : Bool) (j n : Nat) :
    rowsPlacements nanEqual w.width j ((List.range' j n).map w.rowAt) =
      .ok ((List.range' j n).flatMap (fun (j : Nat) =>
        (List.range' 0 w.width).map (fun (i : Nat) => w.placement ((i : Int), (j : Int))))) := by
  induction n generalizing j with
  | zero => rfl
  | succ n ih =>
    have hparts : (w.rowAt j).parts = .ok ((List.range' 0 w.width).map
        (fun (i : Nat) => w.entryAt ((i : Int), (j : Int)))) := rfl
    rw [List.range'_succ, List.map_cons, List.flatMap_cons, rowsPlacements, hparts, ok_bind]
    dsimp only
    rw [if_neg (by simp), rowPlacements_rowAt, ok_bind, ih (j+1)]
    rfl

/-- Rows that are lists are read as their placements, if the first one is not empty. -/
theorem ofRows_lists {nanEqual : Bool} {es rest : List Value} (hne : es ≠ []) :
    ofRows nanEqual (.list (.list es :: rest)) =
      rowsPlacements nanEqual es.length 0 (.list es :: rest) >>=
        ofCells es.length (rest.length+1) := by
  have hfilled : (Value.list es).isFilled = true := by simp [Value.isFilled, hne]
  have hof : rowsOf (.list (.list es :: rest)) = .ok (.list es, rest) := by
    unfold rowsOf
    rw [if_pos (by rfl)]
    change (if (Value.list es).isFilled = true then _ else _) = _
    rw [if_pos hfilled]
    rfl
  unfold ofRows
  rw [hof, ok_bind]
  rfl

/-- The rows of a world are read as its cells, row by row. -/
theorem ofRows_rowEntries (w : World) (nanEqual : Bool) :
    ofRows nanEqual w.rowEntries =
      ofCells w.width w.height (w.rowCells.map w.placement) := by
  obtain ⟨h, hh⟩ : ∃ h, w.height = h+1 := Nat.exists_eq_add_of_le' w.height_pos
  have hrows : (List.range' 0 w.height).map w.rowAt =
      w.rowAt 0 :: (List.range' 1 h).map w.rowAt := by
    rw [hh, List.range'_succ, List.map_cons]
  have hne : (List.range' 0 w.width).map
      (fun (i : Nat) => w.entryAt ((i : Int), ((0 : Nat) : Int))) ≠ [] := by
    have hw := w.width_pos
    simp
    omega
  have hcells : (List.range' 0 w.height).flatMap (fun (j : Nat) =>
      (List.range' 0 w.width).map (fun (i : Nat) => w.placement ((i : Int), (j : Int)))) =
      w.rowCells.map w.placement := by
    simp only [rowCells, List.map_flatMap, List.map_map]
    rfl
  have hread := rowsPlacements_rows w nanEqual 0 w.height
  rw [hrows, hcells] at hread
  rw [rowEntries_eq, hrows]
  refine (ofRows_lists hne).trans ?_
  have hheight : (h : Int)+1 = w.height := by omega
  rw [List.length_map, List.length_range', List.length_map, List.length_range', hheight]
  exact congrArg (· >>= ofCells w.width w.height) hread

-- What a list of placements makes of a grid.

section Placed

variable {ps : List Placement} {width height : Nat}

/-- The placement of a cell. -/
def placed? (ps : List Placement) (c : Cell) : Option Placement := ps.find? (fun p => p.cell = c)

/-- A grid with room for all placements is built, and each of its cells is as it was placed. The
note of a cell comes from the first placement that has one. -/
theorem ofCells_ok (hw : 0 < width) (hh : 0 < height)
    (hin : ∀ p ∈ ps, 0 ≤ p.cell.1 ∧ p.cell.1 < width ∧ 0 ≤ p.cell.2 ∧ p.cell.2 < height) :
    ∃ w, ofCells width height ps = .ok w ∧ w.width = width ∧ w.height = height ∧
      (∀ c, w.inBounds c → w.kindAt? c = some (((placed? ps c).map (·.kind)).getD .empty)) ∧
      ∀ c, w.noteAt? c = (placed? (ps.filter (fun p => !p.note.isEmpty)) c).map (·.note) := by
  have hnone : outside? width height ps = none := by
    unfold outside?
    rw [Option.map_eq_none_iff, List.find?_eq_none]
    intro p hp
    have := hin p hp
    simp [this]
  have hsize : ¬((width : Int) < 1 ∨ (height : Int) < 1) := by omega
  refine ⟨ofFn width height
    (fun i j => ((ps.find? (fun p => p.cell = ((i : Int), (j : Int)))).map (·.kind)).getD .empty)
    ((ps.filter (fun p => !p.note.isEmpty)).map (fun p => (p.cell, p.note))) hw hh,
    ?_, rfl, rfl, ?_, ?_⟩
  · unfold ofCells
    rw [if_neg hsize, hnone]
    exact dif_pos ⟨hw, hh⟩
  · intro c hc
    have hcell : ((c.1.toNat : Int), (c.2.toNat : Int)) = c := by
      obtain ⟨hx, _, hy, _⟩ := inBounds_iff.mp hc
      exact Prod.ext (Int.toNat_of_nonneg hx) (Int.toNat_of_nonneg hy)
    rw [kindAt?_ofFn hc, hcell]
    rfl
  · intro c
    simp only [noteAt?, ofFn, placed?, List.find?_map, Option.map_map]
    rfl

theorem placed?_placement {cs : List Cell} (h : c ∈ cs) :
    placed? (cs.map w.placement) c = some (w.placement c) := by
  induction cs with
  | nil => cases h
  | cons d ds ih =>
    by_cases hd : d = c
    · subst hd
      exact List.find?_cons_of_pos (by simp [placement])
    · have hrest : placed? ((d :: ds).map w.placement) c = placed? (ds.map w.placement) c :=
        List.find?_cons_of_neg (fun hc => hd (of_decide_eq_true hc))
      rw [hrest]
      exact ih ((List.mem_cons.mp h).resolve_left (Ne.symm hd))

/-- Leaving out the cells without a note loses no note. -/
theorem noted_placement {cs : List Cell} (h : c ∈ cs) :
    ((placed? ((cs.map w.placement).filter (fun p => !p.note.isEmpty)) c).map (·.note)).getD [] =
      (w.noteAt? c).getD [] := by
  cases hnote : (w.placement c).note with
  | nil =>
    have hnone : placed? ((cs.map w.placement).filter (fun p => !p.note.isEmpty)) c = none := by
      refine List.find?_eq_none.mpr fun p hp hcell => ?_
      obtain ⟨hmem, hfilled⟩ := List.mem_filter.mp hp
      obtain ⟨d, _, rfl⟩ := List.mem_map.mp hmem
      have hd : d = c := of_decide_eq_true hcell
      rw [hd, hnote] at hfilled
      exact absurd hfilled (by decide)
    rw [hnone]
    exact hnote.symm
  | cons m ms =>
    have hfilled : (!(w.placement c).note.isEmpty) = true := by rw [hnote]; rfl
    -- Only placements of `c` itself are found, and all of these are kept.
    have hfind : placed? ((cs.map w.placement).filter (fun p => !p.note.isEmpty)) c =
        placed? (cs.map w.placement) c := by
      unfold placed?
      rw [List.find?_filter]
      refine List.find?_congr fun p hp => ?_
      obtain ⟨d, _, rfl⟩ := List.mem_map.mp hp
      by_cases hd : d = c
      · subst hd
        simp [hfilled]
      · have hcell : (w.placement d).cell ≠ c := hd
        simp [hcell]
    rw [hfind, placed?_placement h]
    rfl

end Placed

-- Worlds that answer alike.

/-- The same size and the same cells. -/
structure Mirrors (v w : World) : Prop where
  width : v.width = w.width
  height : v.height = w.height
  cellAt? : ∀ c, v.cellAt? c = w.cellAt? c

namespace Mirrors

variable {v w : World} (h : v.Mirrors w)

include h

theorem kindAt? (c : Cell) : v.kindAt? c = w.kindAt? c := by
  have hcell := congrArg (Option.map Prod.fst) (h.cellAt? c)
  simpa only [World.cellAt?, Option.map_map, Function.comp_def, Option.map_id_fun', id_eq]
    using hcell

theorem inBounds (c : Cell) : v.inBounds c = w.inBounds c := by
  simp only [World.inBounds, h.width, h.height]

theorem isWall (c : Cell) : v.isWall c = w.isWall c := by
  simp only [World.isWall, h.kindAt?]

theorem canEnter (c : Cell) : v.canEnter c = w.canEnter c := by
  simp only [World.canEnter, h.kindAt?]

theorem isBeside (c : Cell) (k : Kind) : v.isBeside c k = w.isBeside c k := by
  simp only [World.isBeside, h.kindAt?]

theorem neighbors (c : Cell) : v.neighbors c = w.neighbors c := by
  have hfun : v.inBounds = w.inBounds := funext h.inBounds
  simp only [World.neighbors, hfun]

theorem cellsOfKind (k : Kind) : v.cellsOfKind k = w.cellsOfKind k := by
  have hcells : v.cells = w.cells := by simp only [World.cells, h.width, h.height]
  simp only [World.cellsOfKind, hcells, h.kindAt?]

end Mirrors

/-- The rows of a world make a world like it. -/
theorem ofRows_mirrors (w : World) (nanEqual : Bool) :
    ∃ v, ofRows nanEqual w.rowEntries = .ok v ∧ v.Mirrors w := by
  have hin : ∀ p ∈ w.rowCells.map w.placement,
      0 ≤ p.cell.1 ∧ p.cell.1 < w.width ∧ 0 ≤ p.cell.2 ∧ p.cell.2 < w.height := by
    intro p hp
    obtain ⟨c, hc, rfl⟩ := List.mem_map.mp hp
    exact inBounds_iff.mp (mem_rowCells.mp hc)
  obtain ⟨v, hv, hwidth, hheight, hkind, hnote⟩ := ofCells_ok w.width_pos w.height_pos hin
  refine ⟨v, (ofRows_rowEntries w nanEqual).trans hv, hwidth, hheight, fun c => ?_⟩
  have hbounds : v.inBounds c = w.inBounds c := by simp only [inBounds, hwidth, hheight]
  unfold cellAt?
  by_cases hc : w.inBounds c
  · have hmem : c ∈ w.rowCells := mem_rowCells.mpr hc
    rw [hkind c (hbounds.trans hc), hnote, placed?_placement hmem, kindAt?_inside hc,
      Option.map_some, Option.map_some, noted_placement hmem]
    rfl
  · rw [kindAt?_outside hc, kindAt?_outside (by rwa [hbounds])]
    rfl

end World

namespace Level

theorem checkDeclared_ok {ms : Json.Members} {key : String} {n : Nat}
    (h : Json.lookup ms (.text key) = some (.int n)) : checkDeclared ms key n = .ok () := by
  unfold checkDeclared
  rw [h]
  have hequal : Json.Value.equal false (.int n) (.int n) = true := by
    unfold Json.Value.equal
    change (Number.eq (.int n) (.int n) || false && _) = true
    simp [Number.eq, Number.compare?]
  exact if_pos hequal

/-- The document of a world reads as a world that answers every query as the first one does. -/
theorem document_reads_back (w : World) (nanEqual : Bool) :
    ∃ v, ofDocument nanEqual (toDocument w) = .ok v ∧
      v.width = w.width ∧ v.height = w.height ∧
      (∀ c, v.cellAt? c = w.cellAt? c) ∧
      (∀ c, v.isWall c = w.isWall c) ∧ (∀ c, v.canEnter c = w.canEnter c) ∧
      (∀ c k, v.isBeside c k = w.isBeside c k) ∧ (∀ c, v.neighbors c = w.neighbors c) ∧
      ∀ k, v.cellsOfKind k = w.cellsOfKind k := by
  obtain ⟨v, hv, h⟩ := w.ofRows_mirrors nanEqual
  refine ⟨v, ?_, h.width, h.height, h.cellAt?, h.isWall, h.canEnter, h.isBeside, h.neighbors,
    h.cellsOfKind⟩
  have hwidth : checkDeclared [("version", .int 1), ("width", .int w.width),
      ("height", .int w.height), ("rows", w.rowEntries)] "width" v.width = .ok () :=
    checkDeclared_ok (by rw [h.width]; rfl)
  have hheight : checkDeclared [("version", .int 1), ("width", .int w.width),
      ("height", .int w.height), ("rows", w.rowEntries)] "height" v.height = .ok () :=
    checkDeclared_ok (by rw [h.height]; rfl)
  change (World.ofRows nanEqual w.rowEntries >>= _) = _
  rw [hv, ok_bind, hwidth, ok_bind, hheight]
  rfl

end Level

end Courier
