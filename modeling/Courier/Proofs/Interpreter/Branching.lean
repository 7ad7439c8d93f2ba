import Mathlib.Data.List.Forall2
import Courier.Proofs.Interpreter.Execution

namespace Courier

/-- A condition that reports its evaluations under a name. -/
def Condition.reporting (name : String) (c : Condition) : Condition := { c with label := some name }

/-- What a command asks for where it is not skipped. -/
def Command.Asks (t : WaitSettings) (c : Command) : Errand → Prop
  | .act a => c.action? = some a
  | .wait seconds => ∃ units, c = .wait units ∧ t.seconds (.int units) = .ok seconds

namespace Interpreter

variable {t : Interpreter}

/-- The interpreter with every evaluation reported. -/
def reporting (t : Interpreter) : Interpreter :=
  { t with conditions := t.conditions.map (fun m => (m.1, m.2.reporting m.1)) }

theorem lookup_reporting (t : Interpreter) (name : String) :
    Json.lookup t.reporting.conditions name =
      (Json.lookup t.conditions name).map (.reporting name) := by
  unfold reporting Json.lookup
  dsimp only
  rw [List.find?_map]
  change Option.map _ (Option.map _ (t.conditions.find? (fun m => m.1 == name))) = _
  cases hm : t.conditions.find? (fun m => m.1 == name) with
  | none => rfl
  | some m =>
    have hname : m.1 = name := by simpa using List.find?_some hm
    simp [hname]

/-- Reports change nothing else. -/
theorem openLine_reporting (t : Interpreter) (token : Token) (scene : Scene) (line : String) :
    (t.reporting.openLine token scene line).result = (t.openLine token scene line).result := by
  have hskip : t.reporting.isSkipping = t.isSkipping := rfl
  have hbranches : t.reporting.branches = t.branches := rfl
  have hdemand (i : Instruction) : t.reporting.demand i = t.demand i := rfl
  have hopen (i : Instruction) :
      (t.reporting.openInstruction scene i).result = (t.openInstruction scene i).result := by
    unfold openInstruction
    split
    · next name _ =>
      unfold openBranch
      rw [lookup_reporting]
      cases Json.lookup t.conditions name with
      | none => rfl
      | some c =>
        dsimp only [Option.map_some]
        rw [hskip]
        split <;> rfl
    · rw [hbranches]
    · rw [hskip, hdemand]
      split <;> rfl
  unfold openLine
  split
  · exact hopen _
  · rfl

end Interpreter

/-- What is asked of the agent to meet a demand, and the result. An action may answer anything. -/
inductive Meets (i : Instruction) : Demand → List Errand → StepResult → Prop
  | finished (r : StepResult) : Meets i (.finished r) [] r
  | act (a : Action) (answer : Answer) : Meets i (.act a) [.act a] (.ofAnswer i answer)
  | wait (seconds : Number) : Meets i (.wait seconds) [.wait seconds] (.plain i)

section Meets

variable {i : Instruction} {errands : List Errand} {r : StepResult}

theorem Meets.of_finished {q : StepResult} (h : Meets i (.finished q) errands r) :
    errands = [] ∧ r = q := by
  cases h
  exact ⟨rfl, rfl⟩

theorem Meets.of_act {a : Action} (h : Meets i (.act a) errands r) :
    errands = [.act a] ∧ r.skipped = false := by
  cases h with
  | act a answer =>
    refine ⟨rfl, ?_⟩
    cases answer <;> rfl

theorem Meets.of_wait {seconds : Number} (h : Meets i (.wait seconds) errands r) :
    errands = [.wait seconds] ∧ r = .plain i := by
  cases h
  exact ⟨rfl, rfl⟩

end Meets

/-- A line executed: the interpreter before it, what it could see, what it asked of the agent and
its result. -/
structure Episode where
  before : Interpreter
  token : Token
  scene : Scene
  line : String
  errands : List Errand
  result : StepResult

namespace Episode

def command? (e : Episode) : Option Command :=
  (Instruction.parse e.line).toOption.map (·.command)

/-- The condition that is evaluated for the line, if one is. -/
def evaluated (e : Episode) : Option String :=
  (e.before.reporting.openLine e.token e.scene e.line).evaluated

/-- The line goes through, and the branches are open after it. -/
def Leaves (e : Episode) (branches : List Bool) : Prop :=
  ∃ i d, (e.before.openLine e.token e.scene e.line).result = .ok (i, d, branches) ∧
    Meets i d e.errands e.result

/-- A condition was evaluated, and it was true. -/
def IsTrue (e : Episode) : Prop :=
  ∃ name c, e.evaluated = some name ∧ Json.lookup e.before.conditions name = some c ∧
    c.test e.scene = .ok true

/-- The lines whose branches are open after one more line with a command. -/
def trackCommand (os : List Episode) (e : Episode) : Command → List Episode
  | .branch _ => e :: os
  | .endBranch => os.tail
  | _ => os

def track (os : List Episode) (e : Episode) : List Episode :=
  (e.command?.map (trackCommand os e)).getD os

/-- What is said of a line with the given branches open around it. -/
structure Obeys (e : Episode) (around : List Episode) : Prop where
  acts : ∀ c, e.command? = some c → c.opcode.isControl = false → (∀ o ∈ around, o.IsTrue) →
    ∃ errand, e.errands = [errand] ∧ c.Asks e.before.settings errand ∧ e.result.skipped = false
  skips : ∀ c, e.command? = some c → c.opcode.isControl = false → ¬(∀ o ∈ around, o.IsTrue) →
    e.errands = [] ∧ e.result.skipped = true
  controls : ∀ c, e.command? = some c → c.opcode.isControl = true → e.errands = []
  evaluates : ∀ name, e.evaluated = some name ↔
    e.command? = some (.branch name) ∧ ∀ o ∈ around, o.IsTrue

end Episode

/-- Lines executed one after another on a fresh interpreter. Between two of them only the branches
stay: the conditions and the settings may be other ones for every line. -/
inductive Executes : List Episode → List Bool → Prop
  | nil : Executes [] []
  | concat {es : List Episode} {e : Episode} {branches : List Bool}
      (h : Executes es e.before.branches) (he : e.Leaves branches) : Executes (es ++ [e]) branches

/-- The lines whose branches are open after some lines, the innermost first. -/
def opened (es : List Episode) : List Episode := es.foldl Episode.track []

section Track

variable {e : Episode} {os : List Episode}

theorem Episode.command?_eq {i : Instruction} (h : Instruction.parse e.line = .ok i) :
    e.command? = some i.command := by
  unfold command?
  rw [h]
  rfl

theorem Episode.track_branch {name : String} (h : e.command? = some (.branch name)) :
    track os e = e :: os := by
  rw [track, h]
  rfl

theorem Episode.track_endBranch (h : e.command? = some .endBranch) : track os e = os.tail := by
  rw [track, h]
  rfl

theorem Episode.track_body {c : Command} (h : e.command? = some c)
    (hc : c.opcode.isControl = false) : track os e = os := by
  rw [track, h]
  cases c <;> first | rfl | cases hc

end Track

theorem opened_concat (es : List Episode) (e : Episode) :
    opened (es ++ [e]) = e.track (opened es) := by
  simp [opened, List.foldl_append, Episode.track]

/-- The stack has a frame for every open branch, true if its condition was; above a false frame all
are false. -/
structure Stacks (os : List Episode) (branches : List Bool) : Prop where
  frames : List.Forall₂ (fun o b => b = true ↔ o.IsTrue) os branches
  nested : branches.Pairwise (fun inner outer => outer = false → inner = false)

section Stacks

variable {e : Episode} {es os : List Episode} {branches : List Bool}

theorem Episode.Leaves.opens (h : e.Leaves branches) :
    ∃ i d, Instruction.parse e.line = .ok i ∧
      e.before.reporting.Opens e.scene i e.evaluated d branches ∧
      Meets i d e.errands e.result := by
  obtain ⟨i, d, hr, hm⟩ := h
  rw [← Interpreter.openLine_reporting] at hr
  obtain ⟨hp, ho⟩ := Interpreter.openLine_opens hr
  exact ⟨i, d, hp, ho, hm⟩

/-- The predicate that was evaluated for a line. -/
theorem Episode.isTrue_iff {name : String} {c : Condition} {value : Bool}
    (hv : e.evaluated = some name) (hl : Json.lookup e.before.conditions name = some c)
    (ht : c.test e.scene = .ok value) : value = true ↔ e.IsTrue := by
  constructor
  · intro h
    exact ⟨name, c, hv, hl, h ▸ ht⟩
  · rintro ⟨name', c', hv', hl', ht'⟩
    rw [hv] at hv'
    cases hv'
    rw [hl] at hl'
    cases hl'
    rw [ht] at ht'
    cases ht'
    rfl

theorem Episode.not_isTrue (hv : e.evaluated = none) : ¬e.IsTrue := by
  rintro ⟨name, c, hv', _, _⟩
  rw [hv] at hv'
  cases hv'

theorem Stacks.forall_iff (h : Stacks os branches) :
    (∀ o ∈ os, o.IsTrue) ↔ ∀ b ∈ branches, b = true := by
  have hframes := h.frames
  clear h
  induction hframes with
  | nil => simp
  | cons hob _ ih =>
    rw [List.forall_mem_cons, List.forall_mem_cons]
    exact and_congr hob.symm ih

/-- The innermost frame tells of all. -/
theorem Stacks.skips_iff {t : Interpreter} (h : Stacks os t.branches) :
    t.isSkipping ↔ ∃ o ∈ os, ¬o.IsTrue := by
  have hall : t.isSkipping ↔ ¬∀ b ∈ t.branches, b = true := by
    have hn := h.nested
    unfold Interpreter.isSkipping
    generalize t.branches = bs at hn ⊢
    cases bs with
    | nil => simp
    | cons b bs =>
      obtain ⟨hb, _⟩ := List.pairwise_cons.mp hn
      cases b with
      | false => simp
      | true =>
        have htrue : ∀ c ∈ bs, c = true := by
          intro c hc
          cases c with
          | true => rfl
          | false => exact (hb false hc rfl).symm
        simpa using htrue
  rw [hall, ← h.forall_iff]
  simp

theorem Stacks.not_skips_iff {t : Interpreter} (h : Stacks os t.branches) :
    t.isSkipping = false ↔ ∀ o ∈ os, o.IsTrue := by
  have hs := h.skips_iff
  cases hb : t.isSkipping with
  | false => simpa [hb] using hs
  | true => simpa [hb] using hs

/-- A line keeps the stack in order. -/
theorem stacks_track (h : Stacks os e.before.branches) (he : e.Leaves branches) :
    Stacks (e.track os) branches := by
  obtain ⟨i, d, hp, ho, _⟩ := he.opens
  have hc := Episode.command?_eq hp
  generalize hv : e.evaluated = v at ho
  cases ho with
  | @branch name c value hs hi hl ht =>
    rw [hi] at hc
    rw [Interpreter.lookup_reporting] at hl
    obtain ⟨c', hl', rfl⟩ := Option.map_eq_some_iff.mp hl
    rw [Episode.track_branch hc]
    refine ⟨.cons (Episode.isTrue_iff hv hl' ht) h.frames, List.pairwise_cons.mpr ⟨?_, h.nested⟩⟩
    -- a condition is evaluated only if no branch around it is false
    intro outer houter hfalse
    have hs : e.before.isSkipping = false := hs
    have hall : ∀ o ∈ os, o.IsTrue := h.not_skips_iff.mp hs
    have htrue := h.forall_iff.mp hall outer houter
    rw [hfalse] at htrue
    cases htrue
  | branchSkipped hs hi hl =>
    rw [hi] at hc
    have hfalse := Episode.not_isTrue hv
    rw [Episode.track_branch hc]
    exact ⟨.cons (by simpa using hfalse) h.frames, List.pairwise_cons.mpr ⟨by simp, h.nested⟩⟩
  | @endBranch b _ hi hb =>
    rw [hi] at hc
    have hb : e.before.branches = b :: branches := hb
    obtain ⟨hframes, hnested⟩ := h
    rw [hb] at hframes hnested
    rw [Episode.track_endBranch hc]
    cases hframes with
    | cons _ hrest => exact ⟨hrest, (List.pairwise_cons.mp hnested).2⟩
  | skipped hs hi =>
    rw [Episode.track_body hc hi]
    exact h
  | act hs ha =>
    rw [Episode.track_body hc (Command.isControl_of_action ha)]
    exact h
  | wait hs hi hw =>
    rw [Episode.track_body hc (by rw [hi]; rfl)]
    exact h

theorem Episode.Obeys.control {c : Command} (hc : e.command? = some c)
    (hcontrol : c.opcode.isControl = true) (he : e.errands = [])
    (hv : ∀ name, e.evaluated = some name ↔ c = .branch name ∧ ∀ o ∈ os, o.IsTrue) :
    e.Obeys os := by
  have hcommand (d : Command) (hd : e.command? = some d) : c = d :=
    Option.some.inj (hc.symm.trans hd)
  refine ⟨?_, ?_, fun _ _ _ => he, ?_⟩
  · intro d hd hbody
    rw [← hcommand d hd, hcontrol] at hbody
    cases hbody
  · intro d hd hbody
    rw [← hcommand d hd, hcontrol] at hbody
    cases hbody
  · intro name
    rw [hv, hc, Option.some.injEq]

theorem Episode.Obeys.body {c : Command} (hc : e.command? = some c)
    (hbody : c.opcode.isControl = false) (hv : e.evaluated = none)
    (hacts : (∀ o ∈ os, o.IsTrue) →
      ∃ errand, e.errands = [errand] ∧ c.Asks e.before.settings errand ∧ e.result.skipped = false)
    (hskips : ¬(∀ o ∈ os, o.IsTrue) → e.errands = [] ∧ e.result.skipped = true) :
    e.Obeys os := by
  have hcommand (d : Command) (hd : e.command? = some d) : c = d :=
    Option.some.inj (hc.symm.trans hd)
  refine ⟨?_, fun _ _ _ => hskips, ?_, ?_⟩
  · intro d hd _
    rw [← hcommand d hd]
    exact hacts
  · intro d hd hcontrol
    rw [← hcommand d hd, hbody] at hcontrol
    cases hcontrol
  · intro name
    rw [hv]
    refine ⟨nofun, ?_⟩
    rintro ⟨hd, _⟩
    rw [hcommand _ hd] at hbody
    cases hbody

/-- A line is carried out as the conditions around it were. -/
theorem obeys_opened (h : Stacks os e.before.branches) (he : e.Leaves branches) : e.Obeys os := by
  obtain ⟨i, d, hp, ho, hm⟩ := he.opens
  have hc := Episode.command?_eq hp
  have hall : e.before.reporting.isSkipping = false ↔ ∀ o ∈ os, o.IsTrue := h.not_skips_iff
  generalize hv : e.evaluated = v at ho
  cases ho with
  | @branch name c value hs hi hl ht =>
    rw [Interpreter.lookup_reporting] at hl
    obtain ⟨c', _, rfl⟩ := Option.map_eq_some_iff.mp hl
    refine .control hc (by rw [hi]; rfl) hm.of_finished.1 fun name' => ?_
    rw [hv, hi, Command.branch.injEq]
    exact ⟨fun h => ⟨Option.some.inj h, hall.mp hs⟩, fun h => congrArg some h.1⟩
  | @branchSkipped name c hs hi hl =>
    refine .control hc (by rw [hi]; rfl) hm.of_finished.1 fun name' => ?_
    rw [hv]
    refine ⟨nofun, ?_⟩
    rintro ⟨_, htrue⟩
    rw [hall.mpr htrue] at hs
    cases hs
  | @endBranch b _ hi hb =>
    refine .control hc (by rw [hi]; rfl) hm.of_finished.1 fun name' => ?_
    rw [hv, hi]
    exact ⟨nofun, nofun⟩
  | skipped hs hi =>
    obtain ⟨herrands, hresult⟩ := hm.of_finished
    refine .body hc hi hv ?_ ?_
    · intro htrue
      rw [hall.mpr htrue] at hs
      cases hs
    · intro _
      exact ⟨herrands, by rw [hresult]; rfl⟩
  | @act a hs ha =>
    obtain ⟨herrands, hresult⟩ := hm.of_act
    refine .body hc (Command.isControl_of_action ha) hv ?_ fun hn => absurd (hall.mp hs) hn
    intro _
    exact ⟨.act a, herrands, ha, hresult⟩
  | @wait units seconds hs hi hw =>
    obtain ⟨herrands, hresult⟩ := hm.of_wait
    refine .body hc (by rw [hi]; rfl) hv ?_ fun hn => absurd (hall.mp hs) hn
    intro _
    exact ⟨.wait seconds, herrands, ⟨units, hi, hw⟩, by rw [hresult]; rfl⟩

end Stacks

section Executes

variable {e : Episode} {es fs : List Episode} {branches : List Bool}

theorem Executes.last (h : Executes (es ++ [e]) branches) :
    Executes es e.before.branches ∧ e.Leaves branches := by
  generalize hl : es ++ [e] = l at h
  cases h with
  | nil => simp at hl
  | concat h he =>
    obtain ⟨rfl, he'⟩ := List.append_inj' hl rfl
    cases he'
    exact ⟨h, he⟩

/-- The first lines of a run are a run. -/
theorem Executes.front (h : Executes (es ++ fs) branches) : ∃ bs, Executes es bs := by
  induction fs using List.reverseRecOn generalizing branches with
  | nil => exact ⟨branches, by simpa using h⟩
  | append_singleton fs e ih =>
    rw [← List.append_assoc] at h
    exact ih h.last.1

theorem Executes.stacks (h : Executes es branches) : Stacks (opened es) branches := by
  induction h with
  | nil => exact ⟨.nil, .nil⟩
  | concat h he ih =>
    rw [opened_concat]
    exact stacks_track ih he

/-- The innermost branch stands for all of them. After any lines there is a frame for every open
branch, and a frame above a false one is false; a line is carried out if all conditions of the
branches around it were true, and skipped otherwise; and the conditions evaluated are those of the
branches that are opened with all conditions around them true. -/
theorem branches_conjoin (h : Executes es branches) :
    List.Forall₂ (fun o b => b = true ↔ o.IsTrue) (opened es) branches ∧
      branches.Pairwise (fun inner outer => outer = false → inner = false) ∧
      (∀ t : Interpreter, t.branches = branches →
        t.depth = (opened es).length ∧ (t.isSkipping ↔ ∃ o ∈ opened es, ¬o.IsTrue)) ∧
      ∀ first e rest, es = first ++ e :: rest → e.Obeys (opened first) := by
  have hstacks := h.stacks
  refine ⟨hstacks.frames, hstacks.nested, ?_, ?_⟩
  · rintro t rfl
    exact ⟨hstacks.frames.length_eq.symm, hstacks.skips_iff⟩
  · rintro first e rest rfl
    have hsplit : first ++ e :: rest = (first ++ [e]) ++ rest := by simp
    rw [hsplit] at h
    obtain ⟨bs, hfirst⟩ := h.front
    obtain ⟨hbefore, hleaves⟩ := hfirst.last
    exact obeys_opened hbefore.stacks hleaves

/-- A line executed on the spot, with the standard conditions. -/
def Episode.onSpot (branches : List Bool) (line : String) (errands : List Errand)
    (result : StepResult) : Episode where
  before := ⟨.standard, Condition.standard, branches⟩
  token := .fresh
  scene := .ofStance Engine.corridor.world (.start 1)
  line := line
  errands := errands
  result := result

/-- A pickup inside a true branch, and one inside a true branch of a false one. -/
def pickups : List Episode :=
  [.onSpot [] "IF TRUE" []
      { StepResult.plain ⟨"IF TRUE", .branch "TRUE"⟩ with condition := some true },
    .onSpot [true] "PICKUP" [.act .pickup] (.ofAnswer ⟨"PICKUP", .pickup⟩ (.handled false)),
    .onSpot [true] "IF FALSE" []
      { StepResult.plain ⟨"IF FALSE", .branch "FALSE"⟩ with condition := some false },
    .onSpot [false, true] "IF TRUE" []
      { StepResult.skip ⟨"IF TRUE", .branch "TRUE"⟩ with condition := some false },
    .onSpot [false, false, true] "PICKUP" [] (.skip ⟨"PICKUP", .pickup⟩)]

theorem pickups_executes : Executes pickups [false, false, true] := by
  have h₀ : pickups[0].Leaves [true] :=
    ⟨⟨"IF TRUE", .branch "TRUE"⟩, .finished pickups[0].result, rfl, .finished _⟩
  have h₁ : pickups[1].Leaves [true] :=
    ⟨⟨"PICKUP", .pickup⟩, .act .pickup, rfl, .act .pickup (.handled false)⟩
  have h₂ : pickups[2].Leaves [false, true] :=
    ⟨⟨"IF FALSE", .branch "FALSE"⟩, .finished pickups[2].result, rfl, .finished _⟩
  have h₃ : pickups[3].Leaves [false, false, true] :=
    ⟨⟨"IF TRUE", .branch "TRUE"⟩, .finished pickups[3].result, rfl, .finished _⟩
  have h₄ : pickups[4].Leaves [false, false, true] :=
    ⟨⟨"PICKUP", .pickup⟩, .finished pickups[4].result, rfl, .finished _⟩
  exact ((((Executes.nil.concat h₀).concat h₁).concat h₂).concat h₃).concat h₄

theorem branches_conjoin_pickups :
    Executes pickups [false, false, true] ∧ (opened pickups).length = 3 ∧
      (∃ o ∈ opened pickups, ¬o.IsTrue) ∧ pickups[4].Obeys (opened (pickups.take 4)) := by
  obtain ⟨_, _, hstack, hlines⟩ := branches_conjoin pickups_executes
  obtain ⟨hdepth, hskips⟩ := hstack ⟨.standard, [], [false, false, true]⟩ rfl
  exact ⟨pickups_executes, hdepth.symm, hskips.mp rfl, hlines (pickups.take 4) pickups[4] [] rfl⟩

end Executes

namespace Interpreter

variable {t u : Interpreter} {x y : Stage} {line : String}

/-- A line executed on an engine is an episode. -/
theorem execute_leaves {r : StepResult} (h : t.execute x line = (.ok r, u, y)) :
    ∃ errands, y.errands = x.errands ++ errands ∧
      Episode.Leaves ⟨t, x.performance.watch.token, .ofStance x.engine.world x.engine.committed,
        line, errands, r⟩ u.branches := by
  unfold execute at h
  cases hr : (t.openLine x.performance.watch.token
      (.ofStance x.engine.world x.engine.committed) line).result with
  | error f =>
    rw [hr] at h
    cases h
  | ok o =>
    obtain ⟨i, d, branches⟩ := o
    rw [hr] at h
    obtain ⟨hresult, hrest⟩ := Prod.mk.inj h
    obtain ⟨hu, hy⟩ := Prod.mk.inj hrest
    subst hu
    cases d with
    | finished q =>
      cases hresult
      cases hy
      exact ⟨[], (List.append_nil _).symm, i, _, hr, .finished _⟩
    | act a =>
      cases ha : (x.act a).1 with
      | error f =>
        simp only [meet, ha] at hresult
        cases hresult
      | ok answer =>
        simp only [meet, ha] at hresult
        cases hresult
        cases hy
        exact ⟨[.act a], rfl, i, _, hr, .act a answer⟩
    | wait seconds =>
      cases hw : (x.wait seconds).1 with
      | error f =>
        simp only [meet, hw] at hresult
        cases hresult
      | ok _ =>
        simp only [meet, hw] at hresult
        cases hresult
        cases hy
        exact ⟨[.wait seconds], rfl, i, _, hr, .wait seconds⟩

/-- Lines executed one after another on an engine are such a sequence. -/
theorem executeAll_executes {es : List Episode} (he : Executes es t.branches)
    {lines : List String} {rs : List StepResult}
    (h : t.executeAll x lines = (.ok rs, u, y)) :
    ∃ fs : List Episode, fs.map (·.line) = lines ∧ fs.map (·.result) = rs ∧
      y.errands = x.errands ++ fs.flatMap (·.errands) ∧ Executes (es ++ fs) u.branches := by
  induction lines generalizing t x rs es with
  | nil =>
    cases h
    exact ⟨[], rfl, rfl, (List.append_nil _).symm, by simpa using he⟩
  | cons line lines ih =>
    obtain ⟨r, t', x', qs, hline, hrest, rfl⟩ := executeAll_cons h
    obtain ⟨errands, hx, hleaves⟩ := execute_leaves hline
    obtain ⟨fs, hlines, hresults, hy, hexec⟩ := ih (he.concat hleaves) hrest
    let e : Episode := ⟨t, x.performance.watch.token,
      .ofStance x.engine.world x.engine.committed, line, errands, r⟩
    refine ⟨e :: fs, congrArg (line :: ·) hlines, congrArg (r :: ·) hresults, ?_, ?_⟩
    · rw [hy, hx, List.flatMap_cons, List.append_assoc]
    · simpa using hexec

end Interpreter

end Courier
