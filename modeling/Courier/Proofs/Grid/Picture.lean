import Mathlib.Data.List.TakeWhile
import Courier.Proofs.Grid.Listing
import Courier.Proofs.Text.Lines

namespace Courier

open Json (Value)

namespace Text

variable {p : Char → Bool} {cs before after : List Char}

theorem trim_eq_nil (h : ∀ c ∈ cs, p c) : trim p cs = [] := by
  unfold trim
  rw [List.dropWhile_eq_nil_iff.mpr h]
  rfl

/-- What stands around a text is trimmed away. -/
theorem trim_surrounded (hb : ∀ c ∈ before, p c) (ha : ∀ c ∈ after, p c) (hne : cs ≠ [])
    (hcs : ∀ c ∈ cs, p c = false) : trim p (before ++ cs ++ after) = cs := by
  have hfront : (before ++ cs ++ after).dropWhile p = cs ++ after := by
    rw [List.append_assoc, List.dropWhile_append_of_pos hb]
    refine dropWhile_eq_self fun c hc => hcs c ?_
    rw [List.head?_append_of_ne_nil _ hne] at hc
    exact List.mem_of_mem_head? hc
  have hback : (cs ++ after).reverse.dropWhile p = cs.reverse := by
    rw [List.reverse_append, List.dropWhile_append_of_pos (by simpa using ha)]
    refine dropWhile_eq_self fun c hc => hcs c ?_
    exact List.mem_reverse.mp (List.mem_of_mem_head? hc)
  unfold trim
  rw [hfront, hback, List.reverse_reverse]

end Text

namespace Kind

/-- The character that a kind is drawn as. -/
def symbol : Kind → Char
  | empty => '.'
  | wall => '#'
  | pickup => 'P'
  | dropoff => 'D'

theorem ofPicture?_symbol (k : Kind) : ofPicture? k.symbol = some k := by cases k <;> rfl

theorem isBlank_symbol (k : Kind) : Text.isBlank k.symbol = false := by cases k <;> decide

/-- The entry of a cell of this kind in rows of entries. -/
def entry (k : Kind) : Value := .object [("type", .text k.name)]

end Kind

namespace World

/-- The picture of some rows, the top row first: blank lines between them do not count, and each row
may have blanks around it. -/
inductive Depicts : List String → List (List Kind) → Prop
  | nil : Depicts [] []
  | blank {s : String} {picture : List String} {rows : List (List Kind)}
    (hs : ∀ c ∈ s.toList, Text.isBlank c) (h : Depicts picture rows) : Depicts (s :: picture) rows
  | row {s : String} {before after : List Char} {ks : List Kind} {picture : List String}
    {rows : List (List Kind)} (hb : ∀ c ∈ before, Text.isBlank c)
    (ha : ∀ c ∈ after, Text.isBlank c) (hs : s.toList = before ++ ks.map Kind.symbol ++ after)
    (h : Depicts picture rows) : Depicts (s :: picture) (ks :: rows)

/-- The rows of a picture as rows of entries, the bottom row first. -/
def tableOf (rows : List (List Kind)) : Value :=
  .list (rows.reverse.map (fun ks => .list (ks.map Kind.entry)))

/-- A cell, counted from the bottom, that some rows show with a kind. -/
def Shows (rows : List (List Kind)) (c : Cell) (k : Kind) : Prop :=
  ∃ (line column : Nat) (ks : List Kind), rows[line]? = some ks ∧ ks[column]? = some k ∧
    c = ((column : Int), (rows.length : Int)-1-line)

/-- The placement of a filled cell of a picture. -/
def Marks (rows : List (List Kind)) (p : Placement) : Prop :=
  Shows rows p.cell p.kind ∧ p.kind ≠ .empty ∧ p.note = []

/-- The kind at column `i` of row `j` from the bottom. -/
def kindIn (rows : List (List Kind)) (i j : Nat) : Kind :=
  ((rows[rows.length-1-j]?.getD [])[i]?).getD .empty

section Picture

variable {picture : List String} {rows : List (List Kind)} {width : Nat}

theorem Depicts.lines (h : Depicts picture rows) (hne : ∀ ks ∈ rows, ks ≠ []) :
    (picture.map (fun s => Text.trim Text.isBlank s.toList)).filter (fun l => !l.isEmpty) =
      rows.map (·.map Kind.symbol) := by
  induction h with
  | nil => rfl
  | blank hs h ih =>
    rw [List.map_cons, Text.trim_eq_nil hs, List.filter_cons_of_neg (by simp), ih hne]
  | @row s before after ks picture rows hb ha hs h ih =>
    have hks : ks ≠ [] := hne ks (by simp)
    have htrim : Text.trim Text.isBlank s.toList = ks.map Kind.symbol := by
      rw [hs]
      refine Text.trim_surrounded hb ha (by simpa using hks) fun c hc => ?_
      obtain ⟨k, _, rfl⟩ := List.mem_map.mp hc
      exact k.isBlank_symbol
    rw [List.map_cons, htrim, List.filter_cons_of_pos (by simpa using hks),
      ih (fun ks hks => hne ks (by simp [hks])), List.map_cons]

theorem pictureKinds_symbols (ks : List Kind) : pictureKinds (ks.map Kind.symbol) = .ok ks := by
  induction ks with
  | nil => rfl
  | cons k ks ih =>
    rw [List.map_cons, pictureKinds, k.ofPicture?_symbol]
    dsimp only
    rw [ih]
    rfl

theorem pictureRows_symbols (n : Nat) (h : ∀ ks ∈ rows, ks.length = width) :
    pictureRows width n (rows.map (·.map Kind.symbol)) = .ok rows := by
  induction rows generalizing n with
  | nil => rfl
  | cons ks rows ih =>
    have hlen : (ks.map Kind.symbol).length = width := by
      rw [List.length_map]
      exact h ks (by simp)
    rw [List.map_cons, pictureRows, if_neg (not_not.mpr hlen), pictureKinds_symbols,
      ih _ (fun ks hks => h ks (by simp [hks]))]
    rfl

theorem ofPicture_eq (hp : Depicts picture rows) (hw : 0 < width) (hh : 0 < rows.length)
    (h : ∀ ks ∈ rows, ks.length = width) :
    ofPicture picture = .ok (ofFn width rows.length (kindIn rows) [] hw hh) := by
  have hne : ∀ ks ∈ rows, ks ≠ [] := by
    rintro ks hks rfl
    exact hw.ne (h [] hks)
  have hlines := hp.lines hne
  have hread := pictureRows_symbols 0 h
  obtain ⟨ks, rest, rfl⟩ := List.exists_cons_of_length_pos hh
  have hlen : (ks.map Kind.symbol).length = width := by
    rw [List.length_map]
    exact h ks (by simp)
  unfold ofPicture
  rw [hlines]
  simp only [List.map_cons] at hread ⊢
  rw [hlen, hread]
  simp only [List.length_cons, List.length_map]
  exact sized_eq _ _ hw hh

-- The placements that the rows of a picture are read as.

theorem entryPlacement_entry (nanEqual : Bool) (i j : Nat) (k : Kind) :
    entryPlacement nanEqual i j k.entry = .ok ⟨((i : Int), (j : Int)), k, []⟩ := by
  cases k <;> rfl

theorem rowPlacements_entries (nanEqual : Bool) (j i : Nat) (ks : List Kind) :
    rowPlacements nanEqual j i (ks.map Kind.entry) =
      .ok ((ks.zipIdx i).map (fun q => ⟨((q.2 : Int), (j : Int)), q.1, []⟩)) := by
  induction ks generalizing i with
  | nil => rfl
  | cons k ks ih =>
    rw [List.map_cons, rowPlacements, entryPlacement_entry, ok_bind, ih]
    rfl

theorem rowsPlacements_entries (nanEqual : Bool) (j : Nat) (h : ∀ ks ∈ rows, ks.length = width) :
    rowsPlacements nanEqual width j (rows.map (fun ks => .list (ks.map Kind.entry))) =
      .ok ((rows.zipIdx j).flatMap (fun r =>
        r.1.zipIdx.map (fun q => ⟨((q.2 : Int), (r.2 : Int)), q.1, []⟩))) := by
  induction rows generalizing j with
  | nil => rfl
  | cons ks rows ih =>
    have hlen : (ks.map Kind.entry).length = width := by
      rw [List.length_map]
      exact h ks (by simp)
    have hparts : (Value.list (ks.map Kind.entry)).parts = .ok (ks.map Kind.entry) := rfl
    rw [List.map_cons, rowsPlacements, hparts, ok_bind]
    dsimp only
    rw [if_neg (not_not.mpr hlen), rowPlacements_entries, ok_bind,
      ih _ (fun ks hks => h ks (by simp [hks]))]
    rfl

end Picture

section Drawn

variable {rows : List (List Kind)} {width : Nat} {ps : List Placement}

theorem kindIn_of_getElem? {line column : Nat} {ks : List Kind} {k : Kind}
    (hks : rows[line]? = some ks) (hk : ks[column]? = some k) :
    kindIn rows column (rows.length-1-line) = k := by
  obtain ⟨hlt, _⟩ := List.getElem?_eq_some_iff.mp hks
  have hline : rows.length-1-(rows.length-1-line) = line := by omega
  rw [kindIn, hline, hks, Option.getD_some, hk, Option.getD_some]

theorem getElem?_kindIn (h : ∀ ks ∈ rows, ks.length = width) {i j : Nat} (hi : i < width)
    (hj : j < rows.length) :
    ∃ ks, rows[rows.length-1-j]? = some ks ∧ ks[i]? = some (kindIn rows i j) := by
  have hlt : rows.length-1-j < rows.length := by omega
  have hks := List.getElem?_eq_getElem hlt
  have hlen := h _ (List.getElem_mem hlt)
  have hk := List.getElem?_eq_getElem (hlen ▸ hi)
  refine ⟨_, hks, ?_⟩
  rw [kindIn, hks, Option.getD_some, hk, Option.getD_some]

/-- A cell of the grid is shown with its kind. -/
theorem shows_kindIn (h : ∀ ks ∈ rows, ks.length = width) {i j : Nat} (hi : i < width)
    (hj : j < rows.length) : Shows rows ((i : Int), (j : Int)) (kindIn rows i j) := by
  obtain ⟨ks, hks, hk⟩ := getElem?_kindIn h hi hj
  have hrow : (j : Int) = (rows.length : Int)-1-(rows.length-1-j : Nat) := by omega
  exact ⟨rows.length-1-j, i, ks, hks, hk, by rw [← hrow]⟩

/-- A cell that is shown with a kind has it in the grid. -/
theorem Shows.eq_kindIn (h : ∀ ks ∈ rows, ks.length = width) {c : Cell} {k : Kind}
    (hs : Shows rows c k) :
    ∃ i j : Nat, i < width ∧ j < rows.length ∧ c = ((i : Int), (j : Int)) ∧
      k = kindIn rows i j := by
  obtain ⟨line, column, ks, hks, hk, rfl⟩ := hs
  obtain ⟨hline, hmem⟩ := List.getElem?_eq_some_iff.mp hks
  obtain ⟨hcolumn, _⟩ := List.getElem?_eq_some_iff.mp hk
  have hlen : ks.length = width := h ks (hmem ▸ List.getElem_mem hline)
  have hrow : ((rows.length-1-line : Nat) : Int) = (rows.length : Int)-1-line := by omega
  refine ⟨column, rows.length-1-line, by omega, by omega, by rw [hrow], ?_⟩
  rw [kindIn_of_getElem? hks hk]

/-- The filled cells of a picture, in any order, give a grid its kinds. -/
theorem fills_of_marks (h : ∀ ks ∈ rows, ks.length = width) (hps : ∀ p, p ∈ ps ↔ Marks rows p) :
    Fills width rows.length (kindIn rows) ps where
  sound p hp := by
    obtain ⟨hs, _, hnote⟩ := (hps p).mp hp
    obtain ⟨i, j, hi, hj, hcell, hkind⟩ := hs.eq_kindIn h
    refine ⟨i, j, hi, hj, ?_⟩
    rw [← hcell, ← hkind, ← hnote]
  complete i j hi hj hne := (hps _).mpr ⟨shows_kindIn h hi hj, hne, rfl⟩

/-- The rows of entries give a grid the same kinds. -/
theorem fills_table (h : ∀ ks ∈ rows, ks.length = width) :
    Fills width rows.length (kindIn rows) ((rows.reverse.zipIdx 0).flatMap (fun r =>
      r.1.zipIdx.map (fun q => ⟨((q.2 : Int), (r.2 : Int)), q.1, []⟩))) where
  sound p hp := by
    obtain ⟨⟨ks, j⟩, hks, hp⟩ := List.mem_flatMap.mp hp
    obtain ⟨⟨k, i⟩, hk, rfl⟩ := List.mem_map.mp hp
    rw [List.mk_mem_zipIdx_iff_getElem?] at hks hk
    obtain ⟨hj, _⟩ := List.getElem?_eq_some_iff.mp hks
    obtain ⟨hi, _⟩ := List.getElem?_eq_some_iff.mp hk
    rw [List.length_reverse] at hj
    rw [List.getElem?_reverse hj] at hks
    have hlen : ks.length = width := h ks (List.mem_of_getElem? hks)
    have hkind := kindIn_of_getElem? hks hk
    have hrow : rows.length-1-(rows.length-1-j) = j := by omega
    rw [hrow] at hkind
    exact ⟨i, j, hi.trans_eq hlen, hj, by rw [hkind]⟩
  complete i j hi hj hne := by
    obtain ⟨ks, hks, hk⟩ := getElem?_kindIn h hi hj
    rw [← List.getElem?_reverse hj] at hks
    refine List.mem_flatMap.mpr ⟨(ks, j), List.mk_mem_zipIdx_iff_getElem?.mpr hks, ?_⟩
    exact List.mem_map.mpr ⟨(kindIn rows i j, i), List.mk_mem_zipIdx_iff_getElem?.mpr hk, rfl⟩

theorem ofRows_tableOf (nanEqual : Bool) (hw : 0 < width) (hh : 0 < rows.length)
    (h : ∀ ks ∈ rows, ks.length = width) :
    ofRows nanEqual (tableOf rows) =
      .ok (ofFn width rows.length (kindIn rows) [] hw hh) := by
  have hrev : ∀ ks ∈ rows.reverse, ks.length = width := by simpa using h
  have hread := rowsPlacements_entries nanEqual 0 hrev
  have hbuilt := (fills_table h).ofCells hw hh
  have hlen : rows.reverse.length = rows.length := List.length_reverse
  unfold tableOf
  generalize rows.reverse = below at hrev hread hbuilt hlen
  obtain ⟨ks, rest, rfl⟩ := List.exists_cons_of_length_pos (hlen ▸ hh)
  have hks : ks.length = width := hrev ks (by simp)
  have hne : ks ≠ [] := List.ne_nil_of_length_pos (hks ▸ hw)
  rw [List.map_cons] at hread ⊢
  rw [ofRows_lists (by simpa using hne), List.length_map, hks, hread, ok_bind, List.length_map]
  rw [← hbuilt, ← hlen]
  rfl

/-- The grid of a picture holds what the picture shows. -/
theorem kindAt?_drawn (h : ∀ ks ∈ rows, ks.length = width) (hw : 0 < width)
    (hh : 0 < rows.length) {c : Cell} {k : Kind} :
    (ofFn width rows.length (kindIn rows) [] hw hh).kindAt? c = some k ↔ Shows rows c k := by
  constructor
  · intro hk
    have hc : (ofFn width rows.length (kindIn rows) [] hw hh).inBounds c := by
      by_contra hc
      rw [kindAt?_outside hc] at hk
      cases hk
    rw [kindAt?_ofFn hc] at hk
    cases hk
    obtain ⟨hx, hxw, hy, hyh⟩ := inBounds_iff.mp hc
    have hxw : c.1 < (width : Int) := hxw
    have hyh : c.2 < (rows.length : Int) := hyh
    have hs := shows_kindIn h (i := c.1.toNat) (j := c.2.toNat) (by omega) (by omega)
    rwa [Int.toNat_of_nonneg hx, Int.toNat_of_nonneg hy] at hs
  · intro hs
    obtain ⟨i, j, hi, hj, rfl, rfl⟩ := hs.eq_kindIn h
    refine kindAt?_ofFn (inBounds_iff.mpr ⟨Int.natCast_nonneg i, ?_, Int.natCast_nonneg j, ?_⟩)
    · exact Int.ofNat_lt.mpr hi
    · exact Int.ofNat_lt.mpr hj

theorem codes_drawn (h : ∀ ks ∈ rows, ks.length = width) (hw : 0 < width)
    (hh : 0 < rows.length) :
    (ofFn width rows.length (kindIn rows) [] hw hh).codes =
      (rows.map (·.map Kind.code)).reverse := by
  have hheight : (ofFn width rows.length (kindIn rows) [] hw hh).height = rows.length := rfl
  have hwidth : (ofFn width rows.length (kindIn rows) [] hw hh).width = width := rfl
  have hkind (c : Cell) (k : Kind) := kindAt?_drawn h hw hh (c := c) (k := k)
  generalize ofFn width rows.length (kindIn rows) [] hw hh = w at hheight hwidth hkind
  refine List.ext_getElem (by simp [codes, World.rows, hheight]) fun j hj _ => ?_
  have hj : j < rows.length := by simpa [codes, World.rows, hheight] using hj
  have hline : rows.length-1-j < rows.length := by omega
  have hlen : rows[rows.length-1-j].length = width := h _ (List.getElem_mem hline)
  simp only [codes, World.rows, List.getElem_map, List.getElem_range, List.getElem_reverse,
    List.length_map]
  refine List.ext_getElem (by simp [hwidth, hlen]) fun i hi _ => ?_
  have hi : i < width := by simpa [hwidth] using hi
  have hks := List.getElem?_eq_getElem hline
  have hk := List.getElem?_eq_getElem (hlen ▸ hi)
  have hcell := (hkind ((i : Int), (j : Int)) _).mpr
    ⟨rows.length-1-j, i, _, hks, hk, by rw [Prod.mk.injEq]; omega⟩
  simp only [List.getElem_map, List.getElem_range, hcell, Option.getD_some]

end Drawn

/-- A picture, the rows of entries from its last line to its first one, and its filled cells with
their places make the same world, so that all queries have the same answers. The cells of that world
are those that the picture shows. -/
theorem picture_rows_cells {picture : List String} {rows : List (List Kind)} {width : Nat}
    {ps : List Placement} (hp : Depicts picture rows) (hne : rows ≠ []) (hw : 0 < width)
    (hrows : ∀ ks ∈ rows, ks.length = width) (hps : ∀ p, p ∈ ps ↔ Marks rows p)
    (nanEqual : Bool) :
    ∃ w, ofPicture picture = .ok w ∧ ofRows nanEqual (tableOf rows) = .ok w ∧
      ofCells width rows.length ps = .ok w ∧
      (width*rows.length ≤ maxCells →
        ofEntries (.int width) (.int rows.length) (ps.map Placement.entry) = .ok w) ∧
      w.width = width ∧ w.height = rows.length ∧
      w.codes = (rows.map (·.map Kind.code)).reverse ∧
      ∀ c k note, w.cellAt? c = some (k, note) ↔ Shows rows c k ∧ note = [] := by
  have hh : 0 < rows.length := List.length_pos_of_ne_nil hne
  have hfills := fills_of_marks hrows hps
  refine ⟨ofFn width rows.length (kindIn rows) [] hw hh, ofPicture_eq hp hw hh hrows,
    ofRows_tableOf nanEqual hw hh hrows, hfills.ofCells hw hh, hfills.ofEntries hw hh, rfl, rfl,
    codes_drawn hrows hw hh, fun c k note => ?_⟩
  rw [← kindAt?_drawn hrows hw hh]
  change Option.map (fun k => (k, [])) _ = _ ↔ _
  simp [eq_comm]

/-- A wall and a pickup cell above a dropoff cell, drawn with blanks. -/
theorem picture_rows_cells_corner :
    let rows : List (List Kind) := [[.wall, .pickup, .empty], [.dropoff, .empty, .empty]]
    ∃ w, ofPicture ["  ", " #P. ", "", "D..\t"] = .ok w ∧ ofRows false (tableOf rows) = .ok w ∧
      ofCells 3 2 [⟨(0, 0), .dropoff, []⟩, ⟨(0, 1), .wall, []⟩, ⟨(1, 1), .pickup, []⟩] = .ok w ∧
      w.codes = [[3, 0, 0], [1, 2, 0]] := by
  intro rows
  have hblank {cs : List Char} (h : cs.all Text.isBlank) : ∀ c ∈ cs, Text.isBlank c :=
    List.all_eq_true.mp h
  have hlower : Depicts ["D..\t"] [[.dropoff, .empty, .empty]] :=
    @Depicts.row _ [] ['\t'] _ _ _ (hblank rfl) (hblank (by decide)) (by decide) .nil
  have hboth : Depicts [" #P. ", "", "D..\t"] rows :=
    @Depicts.row _ [' '] [' '] _ _ _ (hblank (by decide)) (hblank (by decide)) (by decide)
      (.blank (hblank (by decide)) hlower)
  have hp : Depicts ["  ", " #P. ", "", "D..\t"] rows := .blank (hblank (by decide)) hboth
  have hps (p : Placement) : p ∈ [⟨(0, 0), .dropoff, []⟩, ⟨(0, 1), .wall, []⟩,
      ⟨(1, 1), .pickup, []⟩] ↔ Marks rows p := by
    obtain ⟨c, k, note⟩ := p
    simp only [List.mem_cons, List.not_mem_nil, Placement.mk.injEq, or_false]
    constructor
    · rintro (⟨rfl, rfl, rfl⟩ | ⟨rfl, rfl, rfl⟩ | ⟨rfl, rfl, rfl⟩)
      · exact ⟨⟨1, 0, _, rfl, rfl, by decide⟩, by decide, rfl⟩
      · exact ⟨⟨0, 0, _, rfl, rfl, by decide⟩, by decide, rfl⟩
      · exact ⟨⟨0, 1, _, rfl, rfl, by decide⟩, by decide, rfl⟩
    · rintro ⟨⟨line, column, ks, hks, hk, rfl⟩, hne, rfl⟩
      obtain _ | _ | line := line <;> cases hks <;> obtain _ | _ | _ | column := column <;>
        cases hk <;> first | exact absurd rfl hne | decide
  obtain ⟨w, hpicture, hrows, hcells, _, _, _, hcodes, _⟩ :=
    picture_rows_cells hp (by decide) (by decide : 0 < 3) (by decide) hps false
  exact ⟨w, hpicture, hrows, hcells, hcodes⟩

end World

end Courier
