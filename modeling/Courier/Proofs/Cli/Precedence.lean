import Courier.Cli.Execute
import Courier.Proofs.Json.Writable

namespace Courier

open Json (Value)

/-- The settings as far as a run uses them: with a file of the level, its name is not used. -/
def RunSettings.asUsed (s : RunSettings) : RunSettings :=
  if s.levelPath.isSome then { s with level := RunSettings.standard.level } else s

theorem runHeadless_asUsed (s : RunSettings) (id : Value) :
    runHeadless s.asUsed id = runHeadless s id := by
  cases s with
  | mk level levelPath programPath instructionsPath outDirectory motion wait writeTrace drawWay =>
    cases levelPath with
    | none => rfl
    | some p => rfl

namespace Cli

namespace Arguments

/-- A given option takes the place of a key in the file: of its own, or of that of an option that it
excludes. -/
def Overrides (a : Arguments) (key : String) : Prop :=
  ∃ o ∈ runCommand.options, a.isGiven o.key ∧ (o.key = key ∨ o.excludes = some key)

/-- The path under a key in the file is looked at, and yet a given option excludes it. -/
def Displaces (a : Arguments) (key : String) : Prop :=
  key ∈ ["program", "instructions", "level_file"] ∧ ¬a.isGiven key ∧
    ∃ o ∈ runCommand.options, a.isGiven o.key ∧ o.excludes = some key

instance (a : Arguments) (key : String) : Decidable (a.Overrides key) :=
  inferInstanceAs (Decidable (∃ o ∈ runCommand.options, _ ∧ _))

instance (a : Arguments) (key : String) : Decidable (a.Displaces key) :=
  inferInstanceAs (Decidable (_ ∧ _ ∧ ∃ o ∈ runCommand.options, _ ∧ _))

/-- Two files are the same but for what options take the place of. -/
def Agree (a : Arguments) (file other : Json.Members) : Prop :=
  ∀ key : String, ¬a.Overrides key →
    Json.lookup file (.text key) = Json.lookup other (.text key)

end Arguments

/-- What is no path is refused with the key alone, if it can be written. -/
theorem toText_error {key : String} {v : Value} {f : Fault} (hv : v.isWritable)
    (h : Settings.toText? key v = .error f) : f = .value (.notText key) := by
  cases v with
  | null => cases h
  | text s => cases h
  | number n =>
    have hn : n.isWritable := hv
    simp [Settings.toText?, hn] at h
  | bool b => exact (Except.error.inj h).symm
  | list vs => exact (Except.error.inj h).symm
  | object ms => exact (Except.error.inj h).symm

/-- What a file has under a key, if it has anything there, can be a path. -/
def HoldsPath (file : Json.Members) (key : String) : Prop :=
  (Settings.toText? key ((Json.lookup file (.text key)).getD .null)).isOk

instance (file : Json.Members) (key : String) : Decidable (HoldsPath file key) :=
  inferInstanceAs (Decidable (_ = true))

theorem mapError_ok {α : Type} (x : α) : (Except.ok x).mapError Failure.fault = .ok x := rfl

theorem mapError_bind {α β : Type} (r : Except Fault α) (f : α → Except Fault β) :
    (r >>= f).mapError Failure.fault =
      r.mapError Failure.fault >>= fun x => (f x).mapError Failure.fault := by
  cases r with
  | error e => rfl
  | ok x => rfl

namespace Sources

/-- The settings of a run as far as it uses them, and its name. -/
def used (s : Sources) : Except Failure (RunSettings × String) := do
  let (settings, runId) ← s.settings
  return (settings.asUsed, runId)

/-- The files of the program and of the instructions, at least one of which is there. -/
def sources (s : Sources) : Except Failure (Option Path × Option Path) := do
  let program ← (s.path? "program").mapError .fault
  let instructions ← (s.path? "instructions").mapError .fault
  let isGiven := s.options.isGiven
  let instructionsPath := if isGiven "program" then none else instructions
  let programPath := if isGiven "instructions" && !isGiven "program" then none else program
  if programPath.isNone && instructionsPath.isNone then throw (.usage .noSource)
  return (programPath, instructionsPath)

/-- The name and the file of the level. -/
def place (s : Sources) : Except Failure (Value × Option Path) := do
  let levelFile ← (s.path? "level_file").mapError .fault
  return (.text (s.choose "level" RunSettings.standard.level).plain,
    if s.options.isGiven "level" then none else levelFile)

/-- The settings but for the program and the level, and the name of the run. -/
def plan (s : Sources) : Except Failure (RunSettings × String) := do
  let scale ←
    (Settings.toFloat "time_scale" (s.choose "time_scale" (.float (.ofNat 1)))).mapError .fault
  let frames ← (Settings.toInt "frames" (s.choose "frames" (.int 20))).mapError .fault
  if Binary64.lt scale (.zero false) then throw (.usage .negativeScale)
  let motion ← (motion frames scale).mapError .fault
  let outDirectory := (← (s.path? "out_dir").mapError .fault) <|> RunSettings.standard.outDirectory
  let wait ← (WaitSettings.ofFields [("time_scale", .float scale)]).mapError .fault
  let writeTrace ← (s.bool "trace" true).mapError .fault
  let drawWay ← (s.bool "render_png" false).mapError .fault
  return ({ RunSettings.standard with outDirectory, motion, wait, writeTrace, drawWay },
    (s.choose "run_id" (.text "run")).plain)

/-- The settings with the program and the level, if they fit together. -/
def assemble (source : Option Path × Option Path) (place : Value × Option Path)
    (plan : RunSettings × String) : Except Failure (RunSettings × String) := do
  let settings ← (RunSettings.check { plan.1 with
    level := place.1, levelPath := place.2, programPath := source.1,
    instructionsPath := source.2 }).mapError .fault
  return (settings, plan.2)

theorem settings_eq (s : Sources) :
    s.settings = (do
      let source ← s.sources
      let place ← s.place
      let plan ← s.plan
      assemble source place plan) := by
  have hthrow {α β : Type} (e : Failure) (f : α → Except Failure β) :
    (throw e >>= f) = throw e := rfl
  have hpure {α : Type} (x : α) : Except.mapError Failure.fault (pure x) = pure x := rfl
  have hite {α β : Type} (b : Bool) (x y : Except Failure α) (f : α → Except Failure β) :
      (if b then x else y) >>= f = if b then x >>= f else y >>= f := by
    cases b with
    | true => rfl
    | false => rfl
  unfold settings sources place plan assemble
  simp only [bind_assoc, pure_bind, mapError_bind, hthrow, hpure, hite]

section TwoFiles

variable {a : Arguments} {file other : Json.Members} {key : String}

/-- What a file has under a key, or null, can be written. -/
theorem isWritable_held (hw : Value.haveWritable file) (key : String) :
    ((Json.lookup file (.text key)).getD .null).isWritable := by
  cases h : Json.lookup file (.text key) with
  | none => rfl
  | some v => exact Json.isWritable_lookup hw h

theorem choose_given (hg : a.isGiven key) (default : Value) :
    choose ⟨a, file⟩ key default = a.value key := by
  unfold choose Settings.choose
  unfold Arguments.isGiven at hg
  dsimp only
  generalize a.value key = v at hg
  cases v with
  | null => cases hg
  | _ => rfl

theorem choose_absent (hg : ¬a.isGiven key) (default : Value) :
    choose ⟨a, file⟩ key default = (Json.lookup file (.text key)).getD default := by
  unfold choose Settings.choose
  unfold Arguments.isGiven at hg
  dsimp only
  generalize a.value key = v at hg
  cases v with
  | null => rfl
  | _ => exact absurd rfl hg

theorem choose_agree (h : a.Agree file other) (hk : a.isGiven key ∨ ¬a.Overrides key)
    (default : Value) : choose ⟨a, file⟩ key default = choose ⟨a, other⟩ key default := by
  by_cases hg : a.isGiven key
  · rw [choose_given hg, choose_given hg]
  · rw [choose_absent hg, choose_absent hg, h key (hk.resolve_left hg)]

/-- A key that no option excludes. -/
theorem choose_own (h : a.Agree file other) (hx : ∀ o ∈ runCommand.options, o.excludes ≠ some key)
    (default : Value) : choose ⟨a, file⟩ key default = choose ⟨a, other⟩ key default := by
  refine choose_agree h ?_ default
  by_cases hg : a.isGiven key
  · exact .inl hg
  · refine .inr ?_
    rintro ⟨o, ho, hgiven, rfl | hexcludes⟩
    · exact hg hgiven
    · exact hx o ho hexcludes

/-- A path is the same for both files, or it has been displaced and is one in both. -/
theorem path_agree (h : a.Agree file other) (hw : Value.haveWritable file)
    (hw' : Value.haveWritable other)
    (hp : ∀ key, a.Displaces key → (HoldsPath file key ↔ HoldsPath other key)) (key : String)
    (hk : key ∈ ["program", "instructions", "level_file"]) :
    path? ⟨a, file⟩ key = path? ⟨a, other⟩ key ∨
      a.Displaces key ∧ ∃ p q, path? ⟨a, file⟩ key = .ok p ∧ path? ⟨a, other⟩ key = .ok q := by
  by_cases hsame : a.isGiven key ∨ ¬a.Overrides key
  · left
    rw [path?, path?, choose_agree h hsame]
  · obtain ⟨hg, hover⟩ := not_or.mp hsame
    obtain ⟨o, ho, hgiven, hkey⟩ := Classical.not_not.mp hover
    have hdisplaces : a.Displaces key := by
      refine ⟨hk, hg, o, ho, hgiven, hkey.resolve_left ?_⟩
      rintro rfl
      exact hg hgiven
    have hboth := hp key hdisplaces
    unfold HoldsPath at hboth
    rw [path?, path?, choose_absent hg, choose_absent hg]
    cases hv : Settings.toText? key ((Json.lookup file (.text key)).getD .null) with
    | error f =>
      cases hv' : Settings.toText? key ((Json.lookup other (.text key)).getD .null) with
      | error g =>
        left
        rw [toText_error (isWritable_held hw key) hv, toText_error (isWritable_held hw' key) hv']
      | ok t =>
        rw [hv, hv'] at hboth
        cases hboth.mpr rfl
    | ok t =>
      cases hv' : Settings.toText? key ((Json.lookup other (.text key)).getD .null) with
      | error g =>
        rw [hv, hv'] at hboth
        cases hboth.mp rfl
      | ok u => exact .inr ⟨hdisplaces, _, _, rfl, rfl⟩

/-- What excludes a key is the option of one other key. -/
theorem given_of_excluded {only : String}
    (honly : ∀ o ∈ runCommand.options, o.excludes = some key → o.key = only)
    (h : ∃ o ∈ runCommand.options, a.isGiven o.key ∧ o.excludes = some key) : a.isGiven only := by
  obtain ⟨o, ho, hgiven, hexcludes⟩ := h
  rw [honly o ho hexcludes] at hgiven
  exact hgiven

theorem sources_agree (h : a.Agree file other) (hw : Value.haveWritable file)
    (hw' : Value.haveWritable other)
    (hp : ∀ key, a.Displaces key → (HoldsPath file key ↔ HoldsPath other key)) :
    sources ⟨a, file⟩ = sources ⟨a, other⟩ := by
  unfold sources
  rcases path_agree h hw hw' hp "program" (by simp) with hprogram | ⟨hd, p, q, hfile, hother⟩
  · rcases path_agree h hw hw' hp "instructions" (by simp) with hsame | ⟨hd, p, q, hfile, hother⟩
    · rw [hprogram, hsame]
    · -- the path of the instructions is dropped
      have hgiven : a.isGiven "program" := given_of_excluded (by decide) hd.2.2
      rw [hprogram, hfile, hother]
      simp only [mapError_ok, ok_bind, hgiven, if_true]
  · -- the path of the program is dropped
    have hgiven : a.isGiven "instructions" := given_of_excluded (by decide) hd.2.2
    have hnot : a.isGiven "program" = false := Bool.eq_false_iff.mpr hd.2.1
    have hsame : path? ⟨a, file⟩ "instructions" = path? ⟨a, other⟩ "instructions" := by
      rw [path?, path?, choose_given hgiven, choose_given hgiven]
    rw [hfile, hother, hsame]
    simp only [mapError_ok, ok_bind, hgiven, hnot, Bool.not_false, Bool.and_true, if_true]

theorem path_given {p : Option Path} (hg : a.isGiven key) (h : path? ⟨a, file⟩ key = .ok p) :
    p.isSome := by
  rw [path?, choose_given hg] at h
  unfold Arguments.isGiven at hg
  generalize a.value key = v at hg h
  cases v with
  | null => cases hg
  | text s =>
    cases h
    rfl
  | number n =>
    unfold Settings.toText? at h
    dsimp only at h
    split at h <;> cases h
    rfl
  | bool b => cases h
  | list vs => cases h
  | object ms => cases h

/-- The level is the same for both files, or its name is not used as there is a file of it. -/
theorem place_agree (h : a.Agree file other) (hw : Value.haveWritable file)
    (hw' : Value.haveWritable other)
    (hp : ∀ key, a.Displaces key → (HoldsPath file key ↔ HoldsPath other key)) :
    place ⟨a, file⟩ = place ⟨a, other⟩ ∨
      ∃ p v w, place ⟨a, file⟩ = .ok (v, some p) ∧ place ⟨a, other⟩ = .ok (w, some p) := by
  unfold place
  rcases path_agree h hw hw' hp "level_file" (by simp) with hsame | ⟨hd, p, q, hfile, hother⟩
  · by_cases hlevel : a.isGiven "level" ∨ ¬a.Overrides "level"
    · left
      rw [hsame, choose_agree h hlevel]
    · -- the name of the level is not used
      obtain ⟨hnot, hover⟩ := not_or.mp hlevel
      obtain ⟨o, ho, hgiven, hkey⟩ := Classical.not_not.mp hover
      have hexcludes : o.excludes = some "level" := by
        refine hkey.resolve_left ?_
        intro hown
        rw [hown] at hgiven
        exact hnot hgiven
      have hfile : a.isGiven "level_file" :=
        given_of_excluded (by decide) ⟨o, ho, hgiven, hexcludes⟩
      rw [Bool.not_eq_true] at hnot
      rw [hsame]
      cases hother : path? ⟨a, other⟩ "level_file" with
      | error f => exact .inl rfl
      | ok levelFile =>
        obtain ⟨p, rfl⟩ := Option.isSome_iff_exists.mp (path_given hfile hother)
        right
        simp only [mapError_ok, ok_bind, hnot]
        exact ⟨p, _, _, rfl, rfl⟩
  · -- the file of the level is dropped
    have hgiven : a.isGiven "level" := given_of_excluded (by decide) hd.2.2
    left
    rw [hfile, hother, choose_given hgiven, choose_given hgiven]
    simp only [mapError_ok, ok_bind, hgiven, if_true]

theorem plan_agree (h : a.Agree file other) : plan ⟨a, file⟩ = plan ⟨a, other⟩ := by
  have hown (key : String) (hx : ∀ o ∈ runCommand.options, o.excludes ≠ some key)
    (default : Value) := choose_own h hx default
  unfold plan path? Sources.bool
  rw [hown "time_scale" (by decide), hown "frames" (by decide), hown "out_dir" (by decide),
    hown "trace" (by decide), hown "render_png" (by decide), hown "run_id" (by decide)]

theorem assemble_used (source : Option Path × Option Path) (p : Path) (v w : Value)
    (plan : RunSettings × String) :
    (do
      let r ← assemble source (v, some p) plan
      return (r.1.asUsed, r.2)) = (do
      let r ← assemble source (w, some p) plan
      return (r.1.asUsed, r.2) : Except Failure (RunSettings × String)) := by
  unfold assemble RunSettings.check
  simp only [Option.isSome_some, Bool.or_true]
  cases require (source.1.isNone || source.2.isNone) .twoSources with
  | error f => rfl
  | ok u => rfl

/-- Whatever the two files hold under keys that options take the place of is not used. -/
theorem used_agree (h : a.Agree file other) (hw : Value.haveWritable file)
    (hw' : Value.haveWritable other)
    (hp : ∀ key, a.Displaces key → (HoldsPath file key ↔ HoldsPath other key)) :
    used ⟨a, file⟩ = used ⟨a, other⟩ := by
  unfold used
  rw [settings_eq, settings_eq, sources_agree h hw hw' hp, plan_agree h]
  rcases place_agree h hw hw' hp with hsame | ⟨p, v, w, hfile, hother⟩
  · rw [hsame]
  · rw [hfile, hother]
    simp only [ok_bind, bind_assoc]
    cases sources ⟨a, other⟩ with
    | error f => rfl
    | ok source =>
      cases plan ⟨a, other⟩ with
      | error f => rfl
      | ok plan => exact assemble_used source p v w plan

/-- A path that is looked at has to be one. -/
theorem displaced_refused (hd : a.Displaces key) (hn : ¬HoldsPath file key) :
    ∃ f, used ⟨a, file⟩ = .error f := by
  obtain ⟨hk, hg, _⟩ := hd
  have hpath : ∃ f, path? ⟨a, file⟩ key = .error f := by
    rw [path?, choose_absent hg]
    unfold HoldsPath at hn
    cases hv : Settings.toText? key ((Json.lookup file (.text key)).getD .null) with
    | error f => exact ⟨f, rfl⟩
    | ok t =>
      rw [hv] at hn
      exact absurd rfl hn
  obtain ⟨f, hf⟩ := hpath
  unfold used
  rw [settings_eq]
  simp only [List.mem_cons, List.not_mem_nil, or_false] at hk
  obtain rfl | rfl | rfl := hk
  · unfold sources
    rw [hf]
    exact ⟨_, rfl⟩
  · unfold sources
    rw [hf]
    cases path? ⟨a, file⟩ "program" with
    | error g => exact ⟨_, rfl⟩
    | ok p => exact ⟨_, rfl⟩
  · unfold place
    rw [hf]
    cases sources ⟨a, file⟩ with
    | error g => exact ⟨_, rfl⟩
    | ok source => exact ⟨_, rfl⟩

end TwoFiles

end Sources

/-- All that a file of settings holds can be written, as it has been read. -/
theorem readConfiguration_isWritable {store : Store} {config : Option Path} {file : Json.Members}
    (h : readConfiguration store config = .ok file) : Value.haveWritable file := by
  unfold readConfiguration at h
  split at h
  · cases h
    rfl
  · split at h
    · cases h
    · cases h
    · split at h
      next hload =>
        cases h
        exact Json.load_isWritable hload
      all_goals cases h

/-- A run under settings that have come out so far. -/
def carryOut (r : Except Failure (RunSettings × String)) : Session String := do
  let (settings, runId) ← liftM r
  let report ← runHeadless settings (.text runId)
  return Json.write false report ++ "\n"

theorem run_used {a : Arguments} {store : Store} {config : Option Path} {file : Json.Members}
    (hc : a.path? "config" = .ok config) (hf : readConfiguration store config = .ok file) :
    run a store = carryOut (Sources.used ⟨a, file⟩) store := by
  have hread : run a store = (do
      let file ← liftM (readConfiguration store config)
      carryOut (Sources.settings ⟨a, file⟩) : Session String) store := by
    unfold run
    rw [hc]
    rfl
  have hrun : run a store = carryOut (Sources.settings ⟨a, file⟩) store := by
    rw [hread, hf]
    rfl
  rw [hrun]
  unfold Sources.used carryOut
  cases Sources.settings ⟨a, file⟩ with
  | error f => rfl
  | ok r =>
    show (do
        let report ← runHeadless r.1 (.text r.2)
        return Json.write false report ++ "\n" : Session String) store = (do
        let report ← runHeadless r.1.asUsed (.text r.2)
        return Json.write false report ++ "\n" : Session String) store
    rw [runHeadless_asUsed]

/-- A run does not depend on what its file has under keys that options take the place of, but that
the path of an excluded option has to be one. -/
theorem options_override {a : Arguments} {store store' : Store} {config : Option Path}
    {file other : Json.Members} (hc : a.path? "config" = .ok config)
    (hf : readConfiguration store config = .ok file)
    (ho : readConfiguration store' config = .ok other) (h : a.Agree file other) :
    ((∀ key, a.Displaces key → (HoldsPath file key ↔ HoldsPath other key)) →
        Sources.used ⟨a, file⟩ = Sources.used ⟨a, other⟩ ∧
          run a store = carryOut (Sources.used ⟨a, file⟩) store ∧
          run a store' = carryOut (Sources.used ⟨a, file⟩) store') ∧
      ∀ key, a.Displaces key → ¬HoldsPath file key →
        ∃ f, run a store = (.error f, store) := by
  refine ⟨?_, ?_⟩
  · intro hp
    have hsame :=
      Sources.used_agree h (readConfiguration_isWritable hf) (readConfiguration_isWritable ho) hp
    refine ⟨hsame, run_used hc hf, ?_⟩
    rw [hsame]
    exact run_used hc ho
  · intro key hd hn
    obtain ⟨f, hfail⟩ := Sources.displaced_refused hd hn
    refine ⟨f, ?_⟩
    rw [run_used hc hf, hfail]
    rfl

/-- A program is named beside a file of settings. -/
def beside : Arguments := ⟨[("config", .text "c.json"), ("program", .text "p.json")], []⟩

/-- A directory with nothing but the file of settings. -/
def configured (text : String) : Store := ⟨[], [(["c.json"], .text text)], []⟩

theorem beside_path : beside.path? "config" = .ok (some ⟨0, ["c.json"]⟩) := by
  have hnames : "c.json".splitOn "/" = ["c.json"] := by
    simp +decide [String.splitOn, String.splitOnAux]
  have hparse : Path.parse "c.json" = ⟨0, ["c.json"]⟩ := by
    rw [Path.parse, hnames]
    rfl
  rw [← hparse]
  rfl

theorem readConfiguration_configured {text : String} {file : Json.Members}
    (h : Json.load "Config" "c.json" text = .ok (.object file)) :
    readConfiguration (configured text) (some ⟨0, ["c.json"]⟩) = .ok file := by
  have hread : (configured text).readText ⟨0, ["c.json"]⟩ = .ok text := rfl
  have hpath : Path.text ⟨0, ["c.json"]⟩ = "c.json" := by decide +kernel
  unfold readConfiguration
  dsimp only
  rw [hread]
  dsimp only
  rw [hpath, h]

/-- The only member of an object, if it is a text or a truth value. -/
def only? : Except Fault Value → Option (String × (String ⊕ Bool))
  | .ok (.object [(.text key, .text s)]) => some (key, .inl s)
  | .ok (.object [(.text key, .bool b)]) => some (key, .inr b)
  | _ => none

theorem only_text {r : Except Fault Value} {key s : String} (h : only? r = some (key, .inl s)) :
    r = .ok (.object [(.text key, .text s)]) := by
  unfold only? at h
  split at h <;> cases h
  rfl

theorem only_bool {r : Except Fault Value} {key : String} {b : Bool}
    (h : only? r = some (key, .inr b)) : r = .ok (.object [(.text key, .bool b)]) := by
  unfold only? at h
  split at h <;> cases h
  rfl

theorem configured_nothing :
    readConfiguration (configured "\x7b\x7d") (some ⟨0, ["c.json"]⟩) = .ok [] :=
  readConfiguration_configured rfl

theorem configured_path :
    readConfiguration (configured "\x7b\"instructions\": \"a.txt\"\x7d") (some ⟨0, ["c.json"]⟩) =
      .ok [("instructions", .text "a.txt")] :=
  readConfiguration_configured (only_text (by decide +kernel))

theorem configured_switch :
    readConfiguration (configured "\x7b\"instructions\": true\x7d") (some ⟨0, ["c.json"]⟩) =
      .ok [("instructions", .bool true)] :=
  readConfiguration_configured (only_bool (by decide +kernel))

theorem beside_agree (v : Value) (file : Json.Members) :
    beside.Agree (("instructions", v) :: file) file := by
  intro key hkey
  have hoverrides : beside.Overrides "instructions" := by decide
  have hne : key ≠ "instructions" := by
    rintro rfl
    exact hkey hoverrides
  have hbeq : ((.text "instructions" : Json.Key) == .text key) = false :=
    decide_eq_false (fun h => hne h.symm)
  unfold Json.lookup
  rw [List.find?_cons_of_neg (by simp [hbeq])]

theorem beside_displaces {key : String} (hd : beside.Displaces key) : key = "instructions" := by
  obtain ⟨hk, hg, hexcluded⟩ := hd
  simp only [List.mem_cons, List.not_mem_nil, or_false] at hk
  obtain rfl | rfl | rfl := hk
  · exact absurd rfl hg
  · rfl
  · have hgiven : beside.isGiven "level" := Sources.given_of_excluded (by decide) hexcluded
    cases hgiven

/-- Instructions in the file give way to the program, unless they are no path. -/
theorem options_override_beside :
    Sources.used ⟨beside, [("instructions", .text "a.txt")]⟩ = Sources.used ⟨beside, []⟩ ∧
      run beside (configured "\x7b\x7d") =
        carryOut (Sources.used ⟨beside, [("instructions", .text "a.txt")]⟩)
          (configured "\x7b\x7d") ∧
      ∃ f, run beside (configured "\x7b\"instructions\": true\x7d") =
        (.error f, configured "\x7b\"instructions\": true\x7d") := by
  have hdisplaces : beside.Displaces "instructions" := by decide
  have hpaths : ∀ key, beside.Displaces key →
      (HoldsPath [("instructions", .text "a.txt")] key ↔ HoldsPath [] key) := by
    intro key hd
    obtain rfl := beside_displaces hd
    exact ⟨fun _ => rfl, fun _ => rfl⟩
  obtain ⟨hsame, _, hrun⟩ :=
    (options_override beside_path configured_path configured_nothing (beside_agree _ _)).1 hpaths
  refine ⟨hsame, hrun, ?_⟩
  exact (options_override beside_path configured_switch configured_switch (fun _ _ => rfl)).2 _
    hdisplaces (by decide)

/-- Instructions in the file that are no path are refused although a program is named. -/
theorem instructions_refused :
    beside.Agree [("instructions", .bool true)] [] ∧
      Sources.used ⟨beside, [("instructions", .bool true)]⟩ =
        .error (.fault (.value (.notText "instructions"))) ∧
      (Sources.used ⟨beside, []⟩).isOk :=
  ⟨beside_agree _ _, rfl, by decide +kernel⟩

end Cli

end Courier
