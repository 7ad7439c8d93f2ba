import Courier.Files.Path
import Courier.Proofs.Text.Split

namespace Courier.Path

/-- A name that a file can have. -/
structure IsFileName (name : String) : Prop where
  filled : name ≠ ""
  not_here : name ≠ "."
  not_up : name ≠ ".."
  noSlash : '/' ∉ name.toList
  noNull : '\x00' ∉ name.toList

instance (name : String) : Decidable (IsFileName name) :=
  decidable_of_iff
    (name ≠ "" ∧ name ≠ "." ∧ name ≠ ".." ∧ '/' ∉ name.toList ∧ '\x00' ∉ name.toList)
    ⟨fun ⟨filled, here, up, slash, null⟩ => ⟨filled, here, up, slash, null⟩,
      fun h => ⟨h.filled, h.not_here, h.not_up, h.noSlash, h.noNull⟩⟩

def HasNoNull (text : String) : Prop := '\x00' ∉ text.toList

instance (text : String) : Decidable (HasNoNull text) := inferInstanceAs (Decidable (_ ∉ _))

/-- What stands between the slashes of a text. -/
def parts (text : String) : List String := (text.toList.splitOn '/').map String.ofList

/-- Where one part of a text leads from a place. There is no way up from the root. -/
def enter (place : List String) (part : String) : List String :=
  if part = "" ∨ part = "." then place
  else if part = ".." then place.dropLast
  else place ++ [part]

/-- Where a text leads from a place, part by part; a slash at its head leads to the root first. -/
def landing (place : List String) (text : String) : List String :=
  (parts text).foldl enter (if text.toList.head? = some '/' then [] else place)

section Reading

variable {s name : String}

/-- A part that a path keeps. -/
structure IsKept (name : String) : Prop where
  filled : name ≠ ""
  not_here : name ≠ "."
  noSlash : '/' ∉ name.toList

theorem parse_names (s : String) :
    (parse s).names = (parts s).filter (fun n => n ≠ "" ∧ n ≠ ".") := by
  have hsplit := Text.splitOn_singleton s '/'
  rw [parts, ← hsplit]
  rfl

theorem isKept_of_parse (h : name ∈ (parse s).names) : IsKept name := by
  rw [parse_names, List.mem_filter, decide_eq_true_eq] at h
  obtain ⟨hpart, hfilled, hhere⟩ := h
  obtain ⟨cs, hcs, rfl⟩ := List.mem_map.mp hpart
  refine ⟨hfilled, hhere, ?_⟩
  rw [String.toList_ofList]
  exact Text.not_mem_of_part hcs

theorem parse_isAbsolute : (parse s).isAbsolute ↔ s.toList.head? = some '/' := by
  have hslashes : (parse s).slashes = 0 ↔ (s.toList.takeWhile (· = '/')).length = 0 := by
    unfold parse
    dsimp only
    split <;> simp_all
  rw [isAbsolute, decide_eq_true_eq, Ne, hslashes]
  cases s.toList with
  | nil => simp
  | cons c cs => by_cases hc : c = '/' <;> simp [hc]

/-- The parts that a path drops hold no null character. -/
theorem parse_any_hasNull : (parse s).names.any hasNull = false ↔ HasNoNull s := by
  have hmem : '\x00' ∈ s.toList ↔ ∃ cs ∈ s.toList.splitOn '/', '\x00' ∈ cs :=
    (Text.mem_part_iff (by decide)).symm
  rw [HasNoNull, hmem, parse_names, List.any_eq_false]
  constructor
  · rintro h ⟨cs, hcs, hnull⟩
    have hne {text : String} (ht : '\x00' ∉ text.toList) : String.ofList cs ≠ text := by
      rintro rfl
      rw [String.toList_ofList] at ht
      exact ht hnull
    refine h (String.ofList cs) (List.mem_filter.mpr ⟨List.mem_map_of_mem hcs, ?_⟩) ?_
    · exact decide_eq_true ⟨hne (by decide), hne (by decide)⟩
    · simpa [hasNull] using hnull
  · intro h name hname hnull
    obtain ⟨cs, hcs, rfl⟩ := List.mem_map.mp (List.mem_filter.mp hname).1
    exact h ⟨cs, hcs, by simpa [hasNull] using hnull⟩

theorem parse_any_hasNull_of_not (h : ¬HasNoNull s) : (parse s).names.any hasNull = true := by
  rw [← Bool.not_eq_false]
  exact mt parse_any_hasNull.mp h

theorem join_absolute {base path : Path} (hp : path.isAbsolute) : base.join path = path := if_pos hp

theorem join_relative {base path : Path} (hp : ¬path.isAbsolute) :
    base.join path = { base with names := base.names ++ path.names } := if_neg hp

theorem isKept_join {base path : String} :
    ∀ n ∈ ((parse base).join (parse path)).names, IsKept n := by
  by_cases hp : (parse path).isAbsolute
  · rw [join_absolute hp]
    exact fun _ => isKept_of_parse
  · rw [join_relative hp]
    intro n hn
    rcases List.mem_append.mp hn with hn | hn <;> exact isKept_of_parse hn

end Reading

section Entering

variable {place names : List String}

theorem foldl_enter_filter (place names : List String) :
    (names.filter (fun n => n ≠ "" ∧ n ≠ ".")).foldl enter place = names.foldl enter place := by
  rw [List.foldl_filter]
  congr 1
  funext place name
  unfold enter
  by_cases h : name = "" ∨ name = "."
  · rw [if_pos h, if_neg]
    simpa [or_iff_not_imp_left] using h
  · rw [if_pos]
    simpa using h

theorem landing_eq (place : List String) (s : String) :
    landing place s = (parse s).names.foldl enter (if (parse s).isAbsolute then [] else place) := by
  rw [parse_names, foldl_enter_filter]
  simp only [landing, parse_isAbsolute]

theorem enter_up (place : List String) : enter place ".." = place.dropLast := rfl

theorem enter_kept {name : String} (h : IsKept name) (hup : name ≠ "..") :
    enter place name = place ++ [name] := by
  rw [enter, if_neg (not_or.mpr ⟨h.filled, h.not_here⟩), if_neg hup]

theorem isFileName_foldl_enter (hplace : ∀ n ∈ place, IsFileName n) (hkept : ∀ n ∈ names, IsKept n)
    (hnull : names.any hasNull = false) : ∀ n ∈ names.foldl enter place, IsFileName n := by
  induction names generalizing place with
  | nil => exact hplace
  | cons name names ih =>
    have hname := hkept name List.mem_cons_self
    rw [List.any_cons, Bool.or_eq_false_iff] at hnull
    refine ih ?_ (fun n hn => hkept n (List.mem_cons_of_mem name hn)) hnull.2
    by_cases hup : name = ".."
    · rw [hup, enter_up]
      exact fun n hn => hplace n (List.dropLast_subset place hn)
    · rw [enter_kept hname hup]
      intro n hn
      rcases List.mem_append.mp hn with hn | hn
      · exact hplace n hn
      · cases List.mem_singleton.mp hn
        exact ⟨hname.filled, hname.not_here, hup, hname.noSlash, by simpa [hasNull] using hnull.1⟩

theorem withoutDots_eq {done : List String} (h : ∀ n ∈ names, n ≠ "..") :
    withoutDots done names = done ++ names := by
  induction names generalizing done with
  | nil => simp [withoutDots]
  | cons name names ih =>
    have hname := h name List.mem_cons_self
    rw [withoutDots, ih (fun n hn => h n (List.mem_cons_of_mem name hn))]
    · simp
    · exact hname

end Entering

section Linkless

variable {t : Terrain} {directory names : List String}

/-- Without links a walk enters one name after the other. -/
theorem walk_linkless (ht : t.links = []) (bound : Nat) (spot : Spot) (visits : Visits)
    (hkept : ∀ n ∈ names, IsKept n) :
    walk t bound spot visits names =
      if names.any hasNull then .error .nullInPath
      else .ok ⟨{ spot with names := names.foldl enter spot.names }, false, visits⟩ := by
  induction names generalizing spot with
  | nil => rw [walk]; rfl
  | cons name names ih =>
    have hname := hkept name List.mem_cons_self
    have hrest (spot : Spot) := ih spot (fun n hn => hkept n (List.mem_cons_of_mem name hn))
    by_cases hup : name = ".."
    · subst hup
      rw [walk, hrest]
      rfl
    · have hlink (ns : List String) : t.link? ns = none := by rw [Terrain.link?, ht]; rfl
      rw [walk]
      · simp only [hlink, hrest, List.any_cons, List.foldl_cons, enter_kept hname hup]
        cases hasNull name <;> simp
      · exact hup

variable (ht : t.links = []) (hd : ∀ n ∈ directory, IsFileName n)

include hd in
theorem isFileName_landing {s : String} (hs : HasNoNull s) :
    ∀ n ∈ landing directory s, IsFileName n := by
  rw [landing_eq]
  refine isFileName_foldl_enter ?_ (fun _ => isKept_of_parse) (parse_any_hasNull.mpr hs)
  split
  · simp
  · exact hd

include ht hd

theorem resolve_linkless {p : Path} (hkept : ∀ n ∈ p.names, IsKept n) :
    resolve t directory p =
      if p.names.any hasNull then .error .nullInPath
      else .ok (p.names.foldl enter (if p.isAbsolute then [] else directory)) := by
  obtain ⟨start, hstart, hnames⟩ : ∃ start : Spot,
      start = (if p.isAbsolute then ⟨true, []⟩ else ⟨false, directory⟩) ∧
        start.names = if p.isAbsolute then [] else directory :=
    ⟨_, rfl, by split <;> rfl⟩
  have hfiles : ∀ n ∈ start.names, IsFileName n := by
    rw [hnames]
    split
    · simp
    · exact hd
  unfold resolve
  dsimp only
  rw [← hstart, walk_linkless ht _ _ _ hkept, ← hnames]
  cases hnull : p.names.any hasNull with
  | true => rfl
  | false =>
    -- What the walk ends with are names of files, so no double dot is left to be removed.
    have hend := isFileName_foldl_enter hfiles hkept hnull
    have hno : (p.names.foldl enter start.names).any hasNull = false := by
      rw [List.any_eq_false]
      intro n hn
      simpa [hasNull] using (hend n hn).noNull
    have hdots : withoutDots [] (p.names.foldl enter start.names) = p.names.foldl enter start.names :=
      withoutDots_eq fun n hn => (hend n hn).not_up
    simp only [Bool.false_eq_true, if_false, ok_bind, hdots, hno, Bool.false_and]
    rfl

/-- A text leads to where its parts lead, one after the other. -/
theorem resolve_parse {s : String} (hs : HasNoNull s) :
    resolve t directory (parse s) = .ok (landing directory s) := by
  rw [resolve_linkless ht hd fun _ => isKept_of_parse, parse_any_hasNull.mpr hs, landing_eq]
  rfl

theorem resolve_null {p : Path} (hkept : ∀ n ∈ p.names, IsKept n)
    (hnull : p.names.any hasNull = true) : resolve t directory p = .error .nullInPath := by
  rw [resolve_linkless ht hd hkept, if_pos hnull]

theorem resolve_parse_null {s : String} (hs : ¬HasNoNull s) :
    resolve t directory (parse s) = .error .nullInPath :=
  resolve_null ht hd (fun _ => isKept_of_parse) (parse_any_hasNull_of_not hs)

/-- A path seen from a base leads on from where the base leads. -/
theorem resolve_join {base path : String} (hbase : HasNoNull base) (hpath : HasNoNull path) :
    resolve t directory ((parse base).join (parse path)) =
      .ok (landing (landing directory base) path) := by
  by_cases hp : (parse path).isAbsolute
  · rw [join_absolute hp, resolve_parse ht hd hpath, landing_eq, landing_eq, if_pos hp, if_pos hp]
  · rw [resolve_linkless ht hd isKept_join, join_relative hp, List.any_append,
      parse_any_hasNull.mpr hbase, parse_any_hasNull.mpr hpath, landing_eq _ path, if_neg hp,
      landing_eq, ← List.foldl_append]
    rfl

theorem resolveWithin_parse {base path : String} (hbase : HasNoNull base)
    (hpath : HasNoNull path) :
    resolveWithin t directory (parse base) (parse path) =
      if landing directory base <+: landing (landing directory base) path then
        .ok (landing (landing directory base) path)
      else .error (.value (.pathEscapes (parse path).text)) := by
  unfold resolveWithin
  rw [resolve_join ht hd hbase hpath, resolve_parse ht hd hbase, ok_bind, ok_bind]
  simp only [List.isPrefixOf_iff_prefix]
  rfl

/-- A null character is refused, also in a base that an absolute path does not need. -/
theorem resolveWithin_null {base path : String} (h : ¬(HasNoNull base ∧ HasNoNull path)) :
    resolveWithin t directory (parse base) (parse path) = .error .nullInPath := by
  unfold resolveWithin
  by_cases hp : (parse path).isAbsolute
  · rw [join_absolute hp]
    by_cases hpath : HasNoNull path
    · rw [resolve_parse ht hd hpath, ok_bind, resolve_parse_null ht hd fun hbase => h ⟨hbase, hpath⟩]
      rfl
    · rw [resolve_parse_null ht hd hpath]
      rfl
  · have hjoin : ((parse base).join (parse path)).names.any hasNull = true := by
      rw [join_relative hp, List.any_append, Bool.or_eq_true]
      exact (not_and_or.mp h).imp parse_any_hasNull_of_not parse_any_hasNull_of_not
    rw [resolve_null ht hd isKept_join hjoin]
    rfl

end Linkless

/-- A path seen from a base, both given as texts of characters, leads to a place of plain names that
is the base or inside of it. It is refused exactly if it leads elsewhere, or if a null character is
in it or in the base. -/
theorem resolveWithin_contained {t : Terrain} {directory : List String} (ht : t.links = [])
    (hd : ∀ n ∈ directory, IsFileName n) (base path : String) :
    let root := landing directory base
    let place := landing root path
    let result := resolveWithin t directory (parse base) (parse path)
    (∀ names, result = .ok names ↔
        (HasNoNull base ∧ HasNoNull path) ∧ root <+: place ∧ names = place) ∧
      (∀ fault, result = .error fault ↔
        ¬(HasNoNull base ∧ HasNoNull path) ∧ fault = .nullInPath ∨
          (HasNoNull base ∧ HasNoNull path) ∧ ¬root <+: place ∧
            fault = .value (.pathEscapes (parse path).text)) ∧
      (HasNoNull base → resolve t directory (parse base) = .ok root) ∧
      (HasNoNull base → HasNoNull path → ∀ n ∈ place, IsFileName n) := by
  intro root place result
  refine ⟨?_, ?_, resolve_parse ht hd, fun hbase => isFileName_landing (isFileName_landing hd hbase)⟩
  all_goals
    intro outcome
    by_cases h : HasNoNull base ∧ HasNoNull path
    · have hresult : result = _ := resolveWithin_parse ht hd h.1 h.2
      rw [hresult]
      by_cases hin : root <+: place
      · rw [if_pos hin]
        simp [h, hin, place, root, eq_comm]
      · rw [if_neg hin]
        simp [h, hin, place, root, eq_comm]
    · have hresult : result = _ := resolveWithin_null ht hd h
      rw [hresult]
      simp [h, eq_comm]

theorem resolveWithin_contained_detour :
    Terrain.bare.links = [] ∧ (∀ n ∈ ["srv"], IsFileName n) ∧
      resolveWithin .bare ["srv"] (parse "runs") (parse "../runs//a/./../b") =
        .ok ["srv", "runs", "b"] ∧
      resolveWithin .bare ["srv"] (parse "runs") (parse "../../srv/runs2/b") =
        .error (.value (.pathEscapes (parse "../../srv/runs2/b").text)) := by
  have hd : ∀ n ∈ ["srv"], IsFileName n := by decide
  have hinside := resolveWithin_contained (t := .bare) rfl hd "runs" "../runs//a/./../b"
  have houtside := resolveWithin_contained (t := .bare) rfl hd "runs" "../../srv/runs2/b"
  refine ⟨rfl, hd, (hinside.1 _).mpr ?_, (houtside.2.1 _).mpr (.inr ?_)⟩
  · exact ⟨by decide, by decide, by decide⟩
  · exact ⟨by decide, by decide, rfl⟩

/-- A name with a null character is refused though it would lead inside of the base. -/
theorem resolveWithin_null_inside :
    landing [] "runs" <+: landing (landing [] "runs") "a\x00b" ∧
      resolveWithin .bare [] (parse "runs") (parse "a\x00b") = .error .nullInPath :=
  ⟨by decide, resolveWithin_null rfl (by simp) (by decide)⟩

end Courier.Path
