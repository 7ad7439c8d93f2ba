import Courier.Proofs.Grid.LevelForm
import Courier.Proofs.Json.Defects

namespace Courier

open Json (Key Value Members)

namespace World

variable {n : Bool} {i j width : Nat} {v r rows : Value} {w : World} {f : Fault}

/-- The type that an entry with these members gives its cell. -/
def entryType (ms : Members) : Value := (Json.lookup ms "type").getD (.text "empty")

def kindOf? (type : Value) : Option Kind :=
  match type with
  | .text s => Kind.ofName? s
  | _ => none

/-- Why there is nothing to place for the entry at column `i` of row `j`. -/
def entryFaults (i j : Nat) (entry : Value) : List Fault :=
  match entry with
  | .object ms =>
    if (kindOf? (entryType ms)).isSome then ((Json.lookup ms "meta").getD .null).memberFaults
    else [.showing (entryType ms) (.cellType (entryType ms) i j)]
  | _ => [.shape .memberless]

/-- All that is wrong with row `j`, which must have this width. -/
def rowFaults (width j : Nat) (row : Value) : List Fault :=
  match row.parts? with
  | none => [.shape .kind]
  | some es =>
    if es.length = width then es.zipIdx.flatMap (fun p => entryFaults p.2 j p.1)
    else [.format (.rowWidth j es.length width)]

/-- The width of the first of these rows and how many there are. -/
def size? (rows : Value) : Option (Nat × Nat) :=
  rows.parts?.bind fun rs =>
    (rs.head?.bind Value.parts?).map fun es => (es.length, rs.length)

/-- All that is wrong with listed rows. The first one sets the width and must be filled. -/
def tableFaults (rs : List Value) : List Fault :=
  match rs with
  | [] => [.format .noRows]
  | r :: _ =>
    if r.isFilled then
      match r.parts? with
      | none => [.shape .kind]
      | some es => rs.zipIdx.flatMap (fun p => rowFaults es.length p.2 p.1)
    else [.format .noRows]

/-- All that is wrong with rows. The first row is asked for by its place, and nothing has one in an
object. -/
def rowsFaults (rows : Value) : List Fault :=
  if rows.isFilled then
    match rows with
    | .object _ => [.shape .missingEntry]
    | rows => rows.parts?.elim [.shape .kind] tableFaults
  else [.format .noRows]

section Read

theorem entryPlacement_object (n : Bool) (i j : Nat) (ms : Members) :
    entryPlacement n i j (.object ms) =
      match kindOf? (entryType ms) with
      | none => .error (.showing (entryType ms) (.cellType (entryType ms) i j))
      | some kind => do
        let note ← ((Json.lookup ms "meta").getD .null).toMembers n
        return { cell := (i, j), kind, note } :=
  rfl

theorem entryPlacement_stops (n : Bool) (i j : Nat) (entry : Value) :
    StopsAt (entryFaults i j entry) (entryPlacement n i j entry) := by
  cases entry with
  | object ms =>
    rw [entryPlacement_object]
    unfold entryFaults
    dsimp only
    cases kindOf? (entryType ms) with
    | none => rfl
    | some kind => exact (Value.toMembers_stops n _).bind_ok _
  | _ => rfl

theorem rowPlacements_stops (n : Bool) (j i : Nat) (es : List Value) :
    StopsAt ((es.zipIdx i).flatMap (fun p => entryFaults p.2 j p.1)) (rowPlacements n j i es) := by
  induction es generalizing i with
  | nil => exact .ok _
  | cons e es ih =>
    rw [List.zipIdx_cons, List.flatMap_cons, rowPlacements]
    exact (entryPlacement_stops n i j e).bind fun p _ => (ih (i+1)).bind_ok _

theorem rowsPlacements_stops (n : Bool) (width j : Nat) (rs : List Value) :
    StopsAt ((rs.zipIdx j).flatMap (fun p => rowFaults width p.2 p.1))
      (rowsPlacements n width j rs) := by
  induction rs generalizing j with
  | nil => exact .ok _
  | cons r rs ih =>
    rw [List.zipIdx_cons, List.flatMap_cons, rowsPlacements]
    unfold rowFaults Value.parts
    dsimp only
    cases r.parts? with
    | none => rfl
    | some es =>
      rw [ok_bind]
      dsimp only
      by_cases hw : es.length = width
      · rw [if_pos hw, if_neg (not_not_intro hw)]
        exact (rowPlacements_stops n j 0 es).bind fun ps _ => (ih (j+1)).bind_ok _
      · rw [if_neg hw, if_pos hw]
        rfl

theorem cell_of_entryPlacement {entry : Value} {p : Placement}
    (h : entryPlacement n i j entry = .ok p) : p.cell = ((i : Int), (j : Int)) := by
  cases entry with
  | object ms =>
    rw [entryPlacement_object] at h
    cases hk : kindOf? (entryType ms) with
    | none =>
      rw [hk] at h
      cases h
    | some kind =>
      rw [hk] at h
      obtain ⟨note, _, hp⟩ := bind_eq_ok h
      cases hp
      rfl
  | _ => cases h

theorem rowPlacements_within {es : List Value} {ps : List Placement}
    (h : rowPlacements n j i es = .ok ps) :
    ∀ p ∈ ps, (i : Int) ≤ p.cell.1 ∧ p.cell.1 < i + es.length ∧ p.cell.2 = j := by
  induction es generalizing i ps with
  | nil =>
    cases h
    simp
  | cons e es ih =>
    rw [rowPlacements] at h
    obtain ⟨p, hp, h⟩ := bind_eq_ok h
    obtain ⟨qs, hqs, h⟩ := bind_eq_ok h
    cases h
    have hcell := cell_of_entryPlacement hp
    intro q hq
    rw [List.length_cons]
    rcases List.mem_cons.mp hq with rfl | hq
    · rw [hcell]
      exact ⟨le_refl _, by omega, rfl⟩
    · obtain ⟨hlow, hhigh, hrow⟩ := ih hqs q hq
      exact ⟨by omega, by omega, hrow⟩

theorem rowsPlacements_within {rs : List Value} {ps : List Placement}
    (h : rowsPlacements n width j rs = .ok ps) :
    ∀ p ∈ ps, 0 ≤ p.cell.1 ∧ p.cell.1 < width ∧ (j : Int) ≤ p.cell.2 ∧
      p.cell.2 < j + rs.length := by
  induction rs generalizing j ps with
  | nil =>
    cases h
    simp
  | cons r rs ih =>
    rw [rowsPlacements] at h
    obtain ⟨es, hes, h⟩ := bind_eq_ok h
    dsimp only at h
    by_cases hw : es.length = width
    · rw [if_neg (not_not_intro hw)] at h
      obtain ⟨qs, hqs, h⟩ := bind_eq_ok h
      obtain ⟨rest, hrest, h⟩ := bind_eq_ok h
      cases h
      intro p hp
      rw [List.length_cons]
      rcases List.mem_append.mp hp with hp | hp
      · obtain ⟨hlow, hhigh, hrow⟩ := rowPlacements_within hqs p hp
        exact ⟨by omega, by omega, by omega, by omega⟩
      · obtain ⟨hlow, hhigh, hbelow, habove⟩ := ih hrest p hp
        exact ⟨hlow, hhigh, by omega, by omega⟩
    · rw [if_pos hw] at h
      cases h

theorem parts_ne_nil {es : List Value} (hr : r.isFilled) (h : r.parts? = some es) : es ≠ [] := by
  rintro rfl
  cases r with
  | text s => simp_all [Value.isFilled, Value.parts?]
  | list vs =>
    cases h
    cases hr
  | object ms => simp_all [Value.isFilled, Value.parts?]
  | _ => cases h

/-- Placements of rows of one width always make a world of the size of the rows. -/
theorem ofCells_rowsPlacements {rs : List Value} {ps : List Placement} (hw : 0 < width)
    (hrs : rs ≠ []) (h : rowsPlacements n width 0 rs = .ok ps) :
    ∃ w, ofCells width rs.length ps = .ok w ∧ w.width = width ∧ w.height = rs.length := by
  have hin : ∀ p ∈ ps, 0 ≤ p.cell.1 ∧ p.cell.1 < width ∧ 0 ≤ p.cell.2 ∧ p.cell.2 < rs.length := by
    intro p hp
    obtain ⟨hlow, hhigh, hbelow, habove⟩ := rowsPlacements_within h p hp
    exact ⟨hlow, hhigh, hbelow, by omega⟩
  obtain ⟨w, hok, hwidth, hheight, _⟩ := ofCells_ok hw (List.length_pos_of_ne_nil hrs) hin
  exact ⟨w, hok, hwidth, hheight⟩

/-- The world of listed rows. -/
def ofTable (n : Bool) (rs : List Value) : Except Fault World :=
  match rs with
  | [] => .error (.format .noRows)
  | r :: _ =>
    if r.isFilled then do
      let es ← r.parts
      let ps ← rowsPlacements n es.length 0 rs
      ofCells es.length rs.length ps
    else .error (.format .noRows)

theorem ofRows_eq (n : Bool) (rows : Value) :
    ofRows n rows =
      if rows.isFilled then
        match rows with
        | .object _ => .error (.shape .missingEntry)
        | rows => rows.parts >>= ofTable n
      else .error (.format .noRows) := by
  have htable (rs : List Value) :
      (match rs with
        | [] => .error (.format .noRows)
        | r :: rs => if r.isFilled then .ok (r, rs) else .error (.format .noRows)) >>=
        (fun p : Value × List Value => do
          let es ← p.1.parts
          let ps ← rowsPlacements n es.length 0 (p.1 :: p.2)
          ofCells es.length (p.2.length+1) ps) = ofTable n rs := by
    cases rs with
    | nil => rfl
    | cons r rs =>
      unfold ofTable
      dsimp only
      split <;> rfl
  unfold ofRows rowsOf
  split
  · cases rows with
    | text s => exact htable _
    | list vs => exact htable _
    | _ => rfl
  · rfl

theorem ofTable_stops (n : Bool) (rs : List Value) : StopsAt (tableFaults rs) (ofTable n rs) := by
  cases rs with
  | nil => rfl
  | cons r rs =>
    unfold tableFaults ofTable
    dsimp only
    by_cases hr : r.isFilled = true
    · rw [if_pos hr, if_pos hr, Value.parts]
      cases hes : r.parts? with
      | none => rfl
      | some es =>
        have hw : 0 < es.length := List.length_pos_of_ne_nil (parts_ne_nil hr hes)
        refine (rowsPlacements_stops n es.length 0 (r :: rs)).bind_total fun ps hps => ?_
        obtain ⟨w, hok, _⟩ := ofCells_rowsPlacements hw (by simp) hps
        exact ⟨w, hok⟩
    · rw [if_neg hr, if_neg hr]
      rfl

theorem ofRows_stops (n : Bool) (rows : Value) : StopsAt (rowsFaults rows) (ofRows n rows) := by
  rw [ofRows_eq]
  unfold rowsFaults
  by_cases hrows : rows.isFilled = true
  · rw [if_pos hrows, if_pos hrows]
    cases rows with
    | text s => exact ofTable_stops n _
    | list vs => exact ofTable_stops n _
    | _ => rfl
  · rw [if_neg hrows, if_neg hrows]
    rfl

theorem ofTable_size {rs : List Value} (h : ofTable n rs = .ok w) :
    rs.length = w.height ∧ ∃ es, rs.head?.bind Value.parts? = some es ∧ es.length = w.width := by
  cases rs with
  | nil => cases h
  | cons r rs =>
    unfold ofTable at h
    dsimp only at h
    by_cases hr : r.isFilled = true
    · rw [if_pos hr, Value.parts] at h
      cases hes : r.parts? with
      | none =>
        rw [hes] at h
        cases h
      | some es =>
        rw [hes, ok_bind] at h
        obtain ⟨ps, hps, hcells⟩ := bind_eq_ok h
        have hw : 0 < es.length := List.length_pos_of_ne_nil (parts_ne_nil hr hes)
        obtain ⟨v, hok, hwidth, hheight⟩ := ofCells_rowsPlacements hw (by simp) hps
        have hv : v = w := Except.ok.inj (hok.symm.trans hcells)
        rw [← hv]
        exact ⟨hheight.symm, es, hes, hwidth.symm⟩
    · rw [if_neg hr] at h
      cases h

theorem ofRows_size (h : ofRows n rows = .ok w) : size? rows = some (w.width, w.height) := by
  have htable : ∃ rs, rows.parts? = some rs ∧ ofTable n rs = .ok w := by
    rw [ofRows_eq] at h
    split at h
    · cases rows with
      | text s => exact ⟨_, rfl, h⟩
      | list vs => exact ⟨_, rfl, h⟩
      | _ => cases h
    · cases h
  obtain ⟨rs, hparts, hrs⟩ := htable
  obtain ⟨hheight, es, hes, hwidth⟩ := ofTable_size hrs
  rw [size?, hparts, Option.bind_some, hes, Option.map_some, hwidth, hheight]

end Read

section Flawless

/-- Rows of entries with this width, as many as this height. -/
def HasSize (rows : Value) (width height : Nat) : Prop :=
  ∃ rs, rows = .list rs ∧ rs.length = height ∧
    ∀ r ∈ rs, ∃ es, r = .list es ∧ es.length = width ∧ ∀ e ∈ es, ∃ ms, e = .object ms

/-- Numbered values without a fault have none each. -/
theorem exists_place_of_flatMap {vs : List Value} {faults : Value × Nat → List Fault}
    (h : vs.zipIdx.flatMap faults = []) (hv : v ∈ vs) : ∃ i, faults (v, i) = [] := by
  obtain ⟨i, hi⟩ := List.mem_iff_getElem?.mp hv
  exact ⟨i, List.flatMap_eq_nil_iff.mp h _ (List.mk_mem_zipIdx_iff_getElem?.mpr hi)⟩

theorem object_of_entryFaults {e : Value} (h : entryFaults i j e = []) : ∃ ms, e = .object ms := by
  cases e with
  | object ms => exact ⟨ms, rfl⟩
  | _ => cases h

/-- The parts of anything but a list are no objects. -/
theorem parts_not_object {es : List Value} {e : Value} (hr : ∀ vs, r ≠ .list vs)
    (h : r.parts? = some es) (he : e ∈ es) (ms : Members) : e ≠ .object ms := by
  rintro rfl
  cases r with
  | list vs => exact hr vs rfl
  | text s =>
    cases h
    obtain ⟨c, _, hc⟩ := List.mem_map.mp he
    cases hc
  | object ns =>
    cases h
    obtain ⟨⟨k, v⟩, _, hk⟩ := List.mem_map.mp he
    cases k <;> cases hk
  | _ => cases h

theorem exists_list_of_objects {es : List Value} (h : r.parts? = some es) (hne : es ≠ [])
    (hobjects : ∀ e ∈ es, ∃ ms, e = .object ms) : r = .list es := by
  by_cases hlist : ∃ vs, r = .list vs
  · obtain ⟨vs, rfl⟩ := hlist
    rw [Option.some.inj h]
  · rw [not_exists] at hlist
    obtain ⟨e, he⟩ := List.exists_mem_of_ne_nil es hne
    obtain ⟨ms, hms⟩ := hobjects e he
    exact absurd hms (parts_not_object hlist h he ms)

theorem row_of_rowFaults (hw : 0 < width) (h : rowFaults width j r = []) :
    ∃ es, r = .list es ∧ es.length = width ∧ ∀ e ∈ es, ∃ ms, e = .object ms := by
  unfold rowFaults at h
  cases hes : r.parts? with
  | none =>
    rw [hes] at h
    cases h
  | some es =>
    rw [hes] at h
    dsimp only at h
    split at h
    · next hlength =>
      have hobjects : ∀ e ∈ es, ∃ ms, e = .object ms := by
        intro e he
        obtain ⟨i, hi⟩ := exists_place_of_flatMap h he
        exact object_of_entryFaults hi
      have hne : es ≠ [] := by
        rintro rfl
        simp at hlength
        omega
      exact ⟨es, exists_list_of_objects hes hne hobjects, hlength, hobjects⟩
    · cases h

theorem rows_of_tableFaults {rs : List Value} (h : tableFaults rs = []) :
    ∃ es, rs.head?.bind Value.parts? = some es ∧
      ∀ r ∈ rs, ∃ fs, r = .list fs ∧ fs.length = es.length ∧ ∀ e ∈ fs, ∃ ms, e = .object ms := by
  cases rs with
  | nil => cases h
  | cons r rs =>
    unfold tableFaults at h
    dsimp only at h
    split at h
    · next hr =>
      cases hes : r.parts? with
      | none =>
        rw [hes] at h
        cases h
      | some es =>
        rw [hes] at h
        refine ⟨es, hes, fun s hs => ?_⟩
        obtain ⟨j, hj⟩ := exists_place_of_flatMap h hs
        exact row_of_rowFaults (List.length_pos_of_ne_nil (parts_ne_nil hr hes)) hj
    · cases h

theorem hasSize_of_rowsFaults {height : Nat} (h : rowsFaults rows = [])
    (hsize : size? rows = some (width, height)) : HasSize rows width height := by
  unfold rowsFaults at h
  split at h
  · cases rows with
    | list rs =>
      obtain ⟨es, hes, hrows⟩ := rows_of_tableFaults h
      have hparts : (Value.list rs).parts? = some rs := rfl
      rw [size?, hparts, Option.bind_some, hes, Option.map_some, Option.some.injEq,
        Prod.mk.injEq] at hsize
      rw [← hsize.1]
      exact ⟨rs, rfl, hsize.2, hrows⟩
    | text s =>
      obtain ⟨es, hes, hrows⟩ := rows_of_tableFaults h
      obtain ⟨r, hr, _⟩ := Option.bind_eq_some_iff.mp hes
      obtain ⟨fs, hfs, _⟩ := hrows r (List.mem_of_mem_head? hr)
      obtain ⟨c, _, hc⟩ := List.mem_map.mp (List.mem_of_mem_head? hr)
      rw [← hc] at hfs
      cases hfs
    | _ => cases h
  · cases h

end Flawless

section Kinds

theorem ofReading_of_entryFaults {e : Value} (h : f ∈ entryFaults i j e) : f.OfReading := by
  unfold entryFaults at h
  split at h
  · split at h
    · exact Value.ofReading_of_memberFaults h
    · exact (Fault.showing_ofReading _ _).of_mem_singleton h
  · exact .of_mem_singleton .memberless h

theorem ofReading_of_rowFaults (h : f ∈ rowFaults width j r) : f.OfReading := by
  unfold rowFaults at h
  split at h
  · exact .of_mem_singleton .kind h
  · split at h
    · obtain ⟨p, _, hp⟩ := List.mem_flatMap.mp h
      exact ofReading_of_entryFaults hp
    · exact .of_mem_singleton (.format _) h

theorem ofReading_of_tableFaults {rs : List Value} (h : f ∈ tableFaults rs) : f.OfReading := by
  unfold tableFaults at h
  split at h
  · exact .of_mem_singleton (.format _) h
  · split at h
    · split at h
      · exact .of_mem_singleton .kind h
      · obtain ⟨p, _, hp⟩ := List.mem_flatMap.mp h
        exact ofReading_of_rowFaults hp
    · exact .of_mem_singleton (.format _) h

theorem ofReading_of_rowsFaults (h : f ∈ rowsFaults rows) :
    f = .shape .missingEntry ∨ f.OfReading := by
  unfold rowsFaults at h
  split at h
  · split at h
    · exact .inl (List.mem_singleton.mp h)
    · right
      cases hparts : rows.parts? with
      | none =>
        rw [hparts] at h
        exact .of_mem_singleton .kind h
      | some rs =>
        rw [hparts] at h
        exact ofReading_of_tableFaults h
  · exact .inr (.of_mem_singleton (.format _) h)

end Kinds

end World

namespace Level

variable {n : Bool} {ms : Members} {key : String} {actual : Nat} {document : Value} {f : Fault}
  {w : World}

/-- Why a declared size does not stand. -/
def declaredFaults (ms : Members) (key : String) (actual : Nat) : List Fault :=
  match (Json.lookup ms (.text key)).getD .null with
  | .null => []
  | v => if Value.equal false v (.int actual) then [] else [.showing v (.declaredSize key v actual)]

/-- All that is wrong with a level document. -/
def documentFaults (document : Value) : List Fault :=
  match document with
  | .object ms =>
    match Json.lookup ms "rows" with
    | some rows =>
      World.rowsFaults rows ++ (World.size? rows).elim [] (fun size =>
        declaredFaults ms "width" size.1 ++ declaredFaults ms "height" size.2)
    | none => [.format .levelPayload]
  | _ => [.format .levelPayload]

theorem checkDeclared_stops (ms : Members) (key : String) (actual : Nat) :
    StopsAt (declaredFaults ms key actual) (checkDeclared ms key actual) := by
  unfold declaredFaults checkDeclared
  cases (Json.lookup ms (Key.text key)).getD .null with
  | null => exact .ok _
  | _ =>
    dsimp only
    split
    · exact .ok _
    · exact .error _

theorem ofDocument_stops (n : Bool) (document : Value) :
    StopsAt (documentFaults document) (ofDocument n document) := by
  cases document with
  | object ms =>
    unfold documentFaults ofDocument
    dsimp only
    cases Json.lookup ms (Key.text "rows") with
    | none => rfl
    | some rows =>
      refine (World.ofRows_stops n rows).bind fun w hw => ?_
      rw [World.ofRows_size hw]
      exact (checkDeclared_stops ms _ _).bind fun _ _ => (checkDeclared_stops ms _ _).bind_ok _
  | _ => rfl

/-- The sizes that a document declares are equal to these, as far as it declares any. -/
def DeclaresSize (ms : Members) (width height : Nat) : Prop :=
  ∀ key actual, (key, actual) ∈ [("width", width), ("height", height)] →
    ∀ v, Json.lookup ms (Key.text key) = some v → v ≠ .null → Value.equal false v (.int actual)

theorem equal_of_declaredFaults (h : declaredFaults ms key actual = []) {v : Value}
    (hv : Json.lookup ms (Key.text key) = some v) (hnull : v ≠ .null) :
    Value.equal false v (.int actual) := by
  unfold declaredFaults at h
  rw [hv, Option.getD_some] at h
  split at h
  · exact absurd rfl hnull
  · split at h
    · assumption
    · cases h

theorem size_of_ofDocument (h : ofDocument n document = .ok w) :
    ∃ ms rows, document = .object ms ∧ Json.lookup ms (Key.text "rows") = some rows ∧
      World.HasSize rows w.width w.height ∧ DeclaresSize ms w.width w.height := by
  have hnone : documentFaults document = [] := by
    have hstops := ofDocument_stops n document
    rw [h] at hstops
    exact hstops.eq_nil
  cases document with
  | object ms =>
    unfold ofDocument at h
    unfold documentFaults at hnone
    dsimp only at h hnone
    cases hrows : Json.lookup ms (Key.text "rows") with
    | none =>
      rw [hrows] at h
      cases h
    | some rows =>
      rw [hrows] at h hnone
      obtain ⟨v, hv, h⟩ := bind_eq_ok h
      obtain ⟨_, _, h⟩ := bind_eq_ok h
      obtain ⟨_, _, h⟩ := bind_eq_ok h
      cases h
      have hsize := World.ofRows_size hv
      dsimp only at hnone
      rw [hsize, Option.elim_some, List.append_eq_nil_iff, List.append_eq_nil_iff] at hnone
      obtain ⟨hfaults, hwidth, hheight⟩ := hnone
      refine ⟨ms, rows, rfl, hrows, World.hasSize_of_rowsFaults hfaults hsize, ?_⟩
      intro key actual hkey
      simp only [List.mem_cons, Prod.mk.injEq, List.not_mem_nil, or_false] at hkey
      rcases hkey with ⟨rfl, rfl⟩ | ⟨rfl, rfl⟩
      · exact fun v => equal_of_declaredFaults hwidth
      · exact fun v => equal_of_declaredFaults hheight
  | _ => cases h

theorem ofReading_of_declaredFaults (h : f ∈ declaredFaults ms key actual) : f.OfReading := by
  unfold declaredFaults at h
  split at h
  · cases h
  · split at h
    · cases h
    · exact (Fault.showing_ofReading _ _).of_mem_singleton h

theorem ofReading_of_documentFaults (h : f ∈ documentFaults document) :
    f = .shape .missingEntry ∨ f.OfReading := by
  unfold documentFaults at h
  split at h
  · split at h
    · next rows _ =>
      rcases List.mem_append.mp h with h | h
      · exact World.ofReading_of_rowsFaults h
      · right
        cases hsize : World.size? rows with
        | none =>
          rw [hsize] at h
          cases h
        | some size =>
          rw [hsize] at h
          exact (List.mem_append.mp h).elim ofReading_of_declaredFaults ofReading_of_declaredFaults
    · exact .inr (.of_mem_singleton (.format _) h)
  · exact .inr (.of_mem_singleton (.format _) h)

/-- Reading a document stops at the first of its faults and comes to a world if there are none. It
reports the document exactly if the first fault is one of the format, and the others are known. A
world has the size of the rows, which is also the declared one. -/
theorem level_reported_iff (nanEqual : Bool) (document : Value) :
    StopsAt (documentFaults document) (ofDocument nanEqual document) ∧
      (IsReported (ofDocument nanEqual document) ↔
        ∀ f ∈ (documentFaults document).head?, ∃ cause, f = .format cause) ∧
      (∀ f ∈ documentFaults document, f = .shape .missingEntry ∨ f.OfReading) ∧
      ∀ w, ofDocument nanEqual document = .ok w →
        ∃ ms rows, document = .object ms ∧ Json.lookup ms (Key.text "rows") = some rows ∧
          World.HasSize rows w.width w.height ∧ DeclaresSize ms w.width w.height :=
  have hstops := ofDocument_stops nanEqual document
  ⟨hstops, hstops.reported_iff, fun _ => ofReading_of_documentFaults, fun _ => size_of_ofDocument⟩

/-- A wall beside a free cell. -/
def nook : Value :=
  .object [("width", .int 2), ("rows", .list [.list [.object [],
    .object [("type", .text "wall"), ("meta", .list [.text "id"])]]])]

theorem level_reported_iff_nook :
    (∃ w, ofDocument true nook = .ok w) ∧
      ∃ ms rows, nook = .object ms ∧ Json.lookup ms (Key.text "rows") = some rows ∧
        World.HasSize rows 2 1 ∧ DeclaresSize ms 2 1 := by
  have hread : ∃ w, ofDocument true nook = .ok w ∧ w.width = 2 ∧ w.height = 1 := ⟨_, rfl, rfl, rfl⟩
  obtain ⟨w, hok, hwidth, hheight⟩ := hread
  have hsize := (level_reported_iff true nook).2.2.2 w hok
  rw [hwidth, hheight] at hsize
  exact ⟨⟨w, hok⟩, hsize⟩

/-- An object and a number in place of the rows, a number in place of a row, of an entry and of its
metadata are not reported. -/
theorem level_not_reported :
    ¬IsReported (ofDocument true (.object [("rows", .object [("0", .list [])])])) ∧
    ¬IsReported (ofDocument true (.object [("rows", .int 1)])) ∧
    ¬IsReported (ofDocument true (.object [("rows", .list [.int 1])])) ∧
    ¬IsReported (ofDocument true (.object [("rows", .list [.list [.int 1]])])) ∧
    ¬IsReported (ofDocument true (.object [("rows",
      .list [.list [.object [("meta", .int 1)]]])])) := by
  refine ⟨?_, ?_, ?_, ?_, ?_⟩ <;> rintro (⟨p, h⟩ | ⟨cause, h⟩) <;> cases h

end Level

end Courier
