import Courier.Program.Compiler
import Courier.Proofs.Instruction.Spelling
import Courier.Proofs.Program.Meaning
import Courier.Run.Outcome

namespace Courier

/-- An interpreter for some waits that knows the standard conditions. -/
structure Interpreter.IsFor (wait : WaitSettings) (t : Interpreter) : Prop where
  settings : t.settings = wait
  conditions : t.conditions = Condition.standard

/-- Lines that do something as a whole, and nothing inside a false branch; either way they leave the
branches open as they were. -/
structure Means (wait : WaitSettings) (lines : List String) (f : Stage → Except Fault Stage) :
    Prop where
  runs : ∀ t x, Interpreter.IsFor wait t → t.isSkipping = false → x.IsReady →
    ∃ rs y, f x = .ok y ∧ y.IsReady ∧ t.executeAll x lines = (.ok rs, t, y)
  skips : ∀ t x, Interpreter.IsFor wait t → t.isSkipping → x.IsReady →
    ∃ rs, t.executeAll x lines = (.ok rs, t, x)

namespace Means

variable {wait : WaitSettings} {lines more : List String} {f g : Stage → Except Fault Stage}

theorem nil (wait : WaitSettings) : Means wait [] .ok where
  runs _ x _ _ hx := ⟨[], x, rfl, hx, rfl⟩
  skips _ _ _ _ _ := ⟨[], rfl⟩

theorem append (h : Means wait lines f) (k : Means wait more g) :
    Means wait (lines ++ more) (fun x => f x >>= g) where
  runs t x ht hs hx := by
    obtain ⟨rs, y, hf, hy, hr⟩ := h.runs t x ht hs hx
    obtain ⟨ss, z, hg, hz, hq⟩ := k.runs t y ht hs hy
    refine ⟨rs ++ ss, z, ?_, hz, Interpreter.executeAll_append hr hq⟩
    rw [hf, ok_bind]
    exact hg
  skips t x ht hs hx := by
    obtain ⟨rs, hr⟩ := h.skips t x ht hs hx
    obtain ⟨ss, hq⟩ := k.skips t x ht hs hx
    exact ⟨rs ++ ss, Interpreter.executeAll_append hr hq⟩

theorem times (h : Means wait lines f) (n : Nat) :
    Means wait (List.replicate n lines).flatten (Program.performTimes f n) := by
  induction n with
  | zero => exact nil wait
  | succ n ih =>
    rw [List.replicate_succ, List.flatten_cons]
    exact h.append ih

theorem line {text : String} {i : Instruction} (hp : Instruction.parse text = .ok i)
    (hc : i.command.opcode.isControl = false)
    (hr : ∀ t x, Interpreter.IsFor wait t → t.isSkipping = false → x.IsReady →
      ∃ r y, f x = .ok y ∧ y.IsReady ∧ t.execute x text = (.ok r, t, y)) :
    Means wait [text] f where
  runs t x ht hs hx := by
    obtain ⟨r, y, hf, hy, he⟩ := hr t x ht hs hx
    exact ⟨[r], y, hf, hy, Interpreter.executeAll_single he⟩
  skips t x _ hs hx :=
    ⟨_, Interpreter.executeAll_single (Interpreter.execute_skipped hx.clear hs hp hc)⟩

theorem act {text : String} {i : Instruction} (hp : Instruction.parse text = .ok i) {a : Action}
    (ha : i.command.action? = some a) : Means wait [text] (Program.performAct a) := by
  have hc : i.command.opcode.isControl = false := by
    revert ha
    cases i.command <;> simp [Command.action?, Command.opcode, Opcode.isControl]
  refine line hp hc ?_
  intro t x _ hs hx
  obtain ⟨answer, y, hy, hready⟩ := Stage.act_ok hx a
  refine ⟨.ofAnswer i answer, y, ?_, hready, ?_⟩
  · unfold Program.performAct
    rw [hy]
    rfl
  · rw [Interpreter.execute_act hx.clear hs hp ha, hy]
    rfl

theorem pause {text : String} {i : Instruction} (hp : Instruction.parse text = .ok i) {n : Nat}
    (hc : i.command = .wait n) {t : WaitSettings} (ht : t.IsTimely n) :
    Means t [text] (Program.performWait t n) := by
  refine line hp (by rw [hc]; rfl) ?_
  intro u x hu hs hx
  obtain ⟨seconds, hsec, hpause⟩ := ht
  obtain ⟨y, hy, hready⟩ := Stage.wait_ok hx hpause
  refine ⟨.plain i, y, ?_, hready, ?_⟩
  · unfold Program.performWait
    rw [lift_ok hsec, ok_bind, hy]
    rfl
  · rw [Interpreter.execute_wait hx.clear hs hp hc (by rw [hu.settings]; exact hsec), hy]
    rfl

/-- A branch does what is inside it if its condition is true when it is reached. -/
theorem branch (h : Means wait lines f) {text name : String} {i : Instruction}
    (hp : Instruction.parse text = .ok i) (hc : i.command = .branch name) {c : Condition}
    (hl : Json.lookup Condition.standard name = some c) {value : Stage → Bool}
    (hv : ∀ x : Stage, c.test (.ofStance x.engine.world x.engine.committed) = .ok (value x)) :
    Means wait (text :: lines ++ ["END_IF"]) (fun x => if value x then f x else .ok x) := by
  have hend : Instruction.parse "END_IF" = .ok ⟨"END_IF", .endBranch⟩ := by rfl
  have hcons : text :: lines ++ ["END_IF"] = [text] ++ (lines ++ ["END_IF"]) := rfl
  rw [hcons]
  constructor
  · intro t x ht hs hx
    have hlt : Json.lookup t.conditions name = some c := by rw [ht.conditions]; exact hl
    obtain ⟨r, hr⟩ := Interpreter.execute_branch hx.clear hs hp hc hlt (hv x)
    let u : Interpreter := { t with branches := value x :: t.branches }
    have hu : u.IsFor wait := ⟨ht.settings, ht.conditions⟩
    -- the body runs or is skipped as the condition says
    have hbody : ∃ rs y, (if value x then f x else .ok x) = .ok y ∧ y.IsReady ∧
        u.executeAll x lines = (.ok rs, u, y) := by
      cases hval : value x with
      | true =>
        obtain ⟨rs, y, hf, hy, hq⟩ := h.runs u x hu (by simp [u, Interpreter.isSkipping, hval]) hx
        exact ⟨rs, y, by simpa using hf, hy, hq⟩
      | false =>
        obtain ⟨rs, hq⟩ := h.skips u x hu (by simp [u, Interpreter.isSkipping, hval]) hx
        exact ⟨rs, x, by simp, hx, hq⟩
    obtain ⟨rs, y, hf, hy, hq⟩ := hbody
    have hclose := Interpreter.execute_endBranch hy.clear hend rfl (show u.branches = _ from rfl)
    exact ⟨_, y, hf, hy, Interpreter.executeAll_append (Interpreter.executeAll_single hr)
      (Interpreter.executeAll_append hq (Interpreter.executeAll_single hclose))⟩
  · intro t x ht hs hx
    have hlt : Json.lookup t.conditions name = some c := by rw [ht.conditions]; exact hl
    obtain ⟨r, hr⟩ := Interpreter.execute_branch_skipped hx.clear hs hp hc hlt
    let u : Interpreter := { t with branches := false :: t.branches }
    obtain ⟨rs, hq⟩ := h.skips u x ⟨ht.settings, ht.conditions⟩ rfl hx
    have hclose := Interpreter.execute_endBranch hx.clear hend rfl (show u.branches = _ from rfl)
    exact ⟨_, Interpreter.executeAll_append (Interpreter.executeAll_single hr)
      (Interpreter.executeAll_append hq (Interpreter.executeAll_single hclose))⟩

end Means

namespace Program

open Compiler

variable {t : WaitSettings} {fields : Json.Members} {lines : List String}

/-- The literal of a count is its numeral. -/
theorem literal_count {field text : String} {n : Nat} (hn : countOf? fields field = some (n : Int))
    (hl : literal ((Json.lookup fields field).getD (.int 1)) = .ok text) :
    text = toString n ∧ (Nat.toDigits 10 n).length ≤ Number.maxDigits := by
  rw [literal_countOf hn] at hl
  unfold integerText at hl
  split at hl
  · cases hl
  · next hd =>
    cases hl
    exact ⟨rfl, Nat.le_of_not_lt hd⟩

theorem countOf_eq {field : String} {n : Nat} (hn : countOf? fields field = some (n : Int)) :
    countOf fields field = n := by
  unfold countOf
  rw [hn]
  rfl

theorem counted_lines {k field : String} (hc : Counts fields field)
    (h : (do
      let text ← literal ((Json.lookup fields field).getD (.int 1))
      return [k ++ " " ++ text]) = .ok lines) :
    ∃ n : Nat, 0 < n ∧ countOf fields field = n ∧
      (Nat.toDigits 10 n).length ≤ Number.maxDigits ∧
      lines = [k ++ " " ++ toString n] := by
  obtain ⟨n, hpos, hn⟩ := hc
  obtain ⟨text, hl, h⟩ := bind_eq_ok h
  cases h
  obtain ⟨rfl, hd⟩ := literal_count hn hl
  exact ⟨n, hpos, countOf_eq hn, hd, rfl⟩

theorem deed_means {type : String} (hloop : type ≠ "repeat_n_times") (hif : type ≠ "if_then")
    (hd : IsDeed t type fields) {statements : List (String × List Block)}
    {inputs : List (String × Block)}
    (h : standard.block (.mk type fields statements inputs) = .ok lines) :
    Means t lines (performDeed t type fields) := by
  unfold performDeed
  unfold IsDeed at hd
  unfold Compiler.block at h
  split
  · obtain ⟨n, hn, hc, hlen, rfl⟩ := counted_lines (k := "MOVE_FORWARD") hd h
    rw [hc]
    exact .act (Instruction.parse_counted .moveForward (by simp [Command.counted]) hn hlen) rfl
  · obtain ⟨n, hn, hc, hlen, rfl⟩ := counted_lines (k := "MOVE_BACKWARD") hd h
    rw [hc]
    exact .act (Instruction.parse_counted .moveBackward (by simp [Command.counted]) hn hlen) rfl
  · cases h
    exact .act (Instruction.parse_bare (c := .turnLeft) (by decide)) rfl
  · cases h
    exact .act (Instruction.parse_bare (c := .turnRight) (by decide)) rfl
  · cases h
    exact .act (Instruction.parse_bare (c := .pickup) (by decide)) rfl
  · cases h
    exact .act (Instruction.parse_bare (c := .dropoff) (by decide)) rfl
  · obtain ⟨n, hn, hc, hlen, rfl⟩ := counted_lines (k := "WAIT") hd.1 h
    have ht := hd.2
    rw [hc] at ht ⊢
    exact .pause (Instruction.parse_counted .wait (by simp [Command.counted]) hn hlen) rfl ht
  · next h1 h2 h3 h4 h5 h6 h7 =>
    have hnone : Json.lookup standard.statements type = none := by
      simp [Json.lookup, standard, defaultStatements, Ne.symm h1, Ne.symm h2, Ne.symm h3,
        Ne.symm h4, Ne.symm h5, Ne.symm h6, Ne.symm h7, Ne.symm hloop, Ne.symm hif]
    rw [hnone] at h
    cases h
    exact .nil t

/-- A loop is its body so many times. -/
theorem unroll_eq {c : Compiler} {times : Nat} {body : List String}
    (h : c.unroll times body = .ok lines) : lines = (List.replicate times body).flatten := by
  unfold unroll at h
  split at h
  · dsimp only at h
    split at h
    · cases h
    · cases h
  · split at h
    · cases h
    · split at h
      · next he =>
        cases h
        rw [List.isEmpty_iff.mp he]
        simp
      · cases h
        rfl

theorem loopCount_eq {type : String} {statements : List (String × List Block)}
    {inputs : List (String × Block)} {times : Nat}
    (h : loopCount (.mk type fields statements inputs) "TIMES" = .ok times) :
    times = timesOf fields := by
  unfold loopCount at h
  unfold timesOf
  dsimp only [Block.fields] at h
  cases hi : integer? ((Json.lookup fields "TIMES").getD (.int 0)) with
  | none => rw [hi] at h; cases h
  | some i =>
    rw [hi] at h
    dsimp only at h
    split at h
    · obtain ⟨_, _, h⟩ := bind_eq_ok h
      cases h
    · cases h
      rfl

/-- The line that opens a branch reads as its condition, which is tested where the agent stands. -/
theorem condition_means (inputs : List (String × Block)) :
    ∃ name c, Instruction.parse ("IF " ++ standard.condition inputs) =
        .ok ⟨"IF " ++ standard.condition inputs, .branch name⟩ ∧
      Json.lookup Condition.standard name = some c ∧
      ∀ x : Stage,
        c.test (.ofStance x.engine.world x.engine.committed) = .ok (isTrue inputs x) := by
  have hfalse : Instruction.parse "IF FALSE" = .ok ⟨"IF FALSE", .branch "FALSE"⟩ := by rfl
  have hwall : Instruction.parse "IF IS_WALL_AHEAD" =
      .ok ⟨"IF IS_WALL_AHEAD", .branch "IS_WALL_AHEAD"⟩ := by rfl
  unfold condition isTrue
  cases hi : Json.lookup inputs "CONDITION" with
  | none => exact ⟨_, _, hfalse, rfl, fun _ => rfl⟩
  | some b =>
    dsimp only
    by_cases hb : b.type = "is_wall_ahead"
    · have hv : Json.lookup standard.values b.type = some "IS_WALL_AHEAD" := by
        rw [hb]
        rfl
      rw [hv]
      refine ⟨_, _, hwall, rfl, ?_⟩
      intro x
      simp only [hb, decide_true, Bool.true_and]
      rfl
    · have hv : Json.lookup standard.values b.type = none := by
        simp [Json.lookup, standard, defaultValues, @eq_comm _ _ b.type, hb]
      rw [hv]
      refine ⟨_, _, hfalse, rfl, ?_⟩
      intro x
      simp only [hb, decide_false, Bool.false_and]
      rfl

theorem block_loop {statements : List (String × List Block)} {inputs : List (String × Block)} :
    standard.block (.mk "repeat_n_times" fields statements inputs) = (do
      let times ← loopCount (.mk "repeat_n_times" fields statements inputs) "TIMES"
      standard.unroll times (← standard.body statements)) := by
  rw [Compiler.block]
  rfl

theorem block_branch {statements : List (String × List Block)} {inputs : List (String × Block)} :
    standard.block (.mk "if_then" fields statements inputs) = (do
      let lines ← standard.body statements
      return ("IF " ++ standard.condition inputs) :: lines ++ ["END_IF"]) := by
  rw [Compiler.block]
  rfl

mutual
theorem block_means {b : Block} {lines : List String} (hc : IsCountedBlock t b)
    (h : standard.block b = .ok lines) : Means t lines (performBlock t b) := by
  obtain ⟨type, fields, statements, inputs⟩ := b
  by_cases hloop : type = "repeat_n_times"
  · subst hloop
    have hbody : IsCountedBody t statements := by simpa [IsCountedBlock] using hc
    rw [block_loop] at h
    obtain ⟨times, ht, h⟩ := bind_eq_ok h
    obtain ⟨body, hs, h⟩ := bind_eq_ok h
    rw [unroll_eq h, loopCount_eq ht, performBlock_loop]
    exact (body_means hbody hs).times (timesOf fields)
  · by_cases hif : type = "if_then"
    · subst hif
      have hbody : IsCountedBody t statements := by simpa [IsCountedBlock] using hc
      rw [block_branch] at h
      obtain ⟨body, hs, h⟩ := bind_eq_ok h
      cases h
      obtain ⟨name, c, hparse, hl, hv⟩ := condition_means inputs
      rw [performBlock_branch]
      exact (body_means hbody hs).branch hparse rfl hl hv
    · have hd : IsDeed t type fields := by simpa [IsCountedBlock, hloop, hif] using hc
      rw [performBlock_deed hloop hif]
      exact deed_means hloop hif hd h

theorem body_means : ∀ {slots : List (String × List Block)} {lines : List String},
    IsCountedBody t slots → standard.body slots = .ok lines → Means t lines (performBody t slots)
  | [], lines, _, h => by
    cases h
    exact .nil t
  | (slot, bs) :: rest, lines, hc, h => by
    by_cases hs : slot = "DO"
    · subst hs
      rw [performBody_do]
      exact sequence_means (by simpa [IsCountedBody] using hc)
        (by simpa [Compiler.body] using h)
    · rw [performBody_skip hs]
      exact body_means (by simpa [IsCountedBody, hs] using hc)
        (by simpa [Compiler.body, hs] using h)

/-- The lines of a program do what the program does. -/
theorem sequence_means : ∀ {p : Program} {lines : List String}, IsCounted t p →
    standard.sequence p = .ok lines → Means t lines (perform t p)
  | [], lines, _, h => by
    cases h
    exact .nil t
  | b :: bs, lines, hc, h => by
    obtain ⟨first, hf, h⟩ := bind_eq_ok h
    obtain ⟨rest, hr, h⟩ := bind_eq_ok h
    cases h
    exact (block_means hc.1 hf).append (sequence_means hc.2 hr)
end

theorem execute_stuck {x : Stage} {n : Int} {f : NumberFault} (hx : x.performance.IsClear)
    (hn : x.engine.settings.frames = .int n) (hi : x.engine.settings.frameInterval = .error f)
    (he : x.engine.world.canEnter (x.engine.committed.ahead 1)) :
    ((Interpreter.make .standard []).executeAll x ["MOVE_FORWARD 1"]).1 = .error (.number f) := by
  have hp : Instruction.parse "MOVE_FORWARD 1" = .ok ⟨"MOVE_FORWARD 1", .moveForward 1⟩ := by rfl
  have hact : (x.act (.move false 1)).1 = .error (.number f) := by
    have hc := Performance.perform_concludes hx (.move false 1)
    exact hc.answer.trans (Action.whole_stuck hn hi he)
  have hline := Interpreter.execute_act (t := .make .standard []) hx rfl hp (a := .move false 1) rfl
  rw [hact] at hline
  rw [Interpreter.executeAll_failed hline]

/-- Units of a wait that cannot be multiplied out. -/
theorem execute_untimed {x : Stage} {wait : WaitSettings} {f : NumberFault}
    (hx : x.performance.IsClear) (hs : wait.seconds (.int (1 : Nat)) = .error f) :
    ((Interpreter.make wait []).executeAll x ["WAIT 1"]).1 = .error (.number f) := by
  have hp : Instruction.parse "WAIT 1" = .ok ⟨"WAIT 1", .wait 1⟩ := by rfl
  have hd : (Interpreter.make wait []).demand ⟨"WAIT 1", .wait 1⟩ = .error (.number f) := by
    have hsec : (Interpreter.make wait []).settings.seconds (.int (1 : Nat)) = .error f := hs
    unfold Interpreter.demand
    dsimp only
    rw [hsec]
    rfl
  have ho : ∀ scene, (Interpreter.make wait []).openInstruction scene ⟨"WAIT 1", .wait 1⟩ =
      ⟨none, none, .error (.number f)⟩ := by
    intro scene
    unfold Interpreter.openInstruction
    dsimp only
    rw [hd]
    rfl
  have hline := Interpreter.execute_of_open hx hp (ho _)
  rw [Interpreter.executeAll_failed hline]

theorem seconds_large {n : Int} (hn : Number.toBinary64 (.int n) = .error .outOfRange)
    {t : WaitSettings} {x : Binary64} (hu : t.unitSeconds = .int n)
    (hs : t.timeScale = .float x) : t.seconds (.int (1 : Nat)) = .error .outOfRange := by
  have hmul : Number.mul (.int (1 : Nat)) (.int n) = .ok (.int n) := by
    simp [Number.mul, Number.promote]
  unfold WaitSettings.seconds
  rw [hu, hmul]
  change Number.mul (.int n) t.timeScale = _
  rw [hs, Number.mul, Number.float_promote, hn]
  rfl

/-- Whole numbers that are no binary64 numbers are too large to pause with: a step with so many
frames fails, and so does a wait of so many seconds. -/
theorem stuck_of_large {n : Int} (hn : Number.toBinary64 (.int n) = .error .outOfRange) :
    (∃ e, Engine.make Engine.corridor.world none { MotionSettings.instant with frames := .int n } =
        .ok e ∧
      ((Interpreter.make .standard []).executeAll (.start e) ["MOVE_FORWARD 1"]).1 =
        .error (.number .outOfRange)) ∧
    (∃ e, Engine.make Engine.corridor.world none .instant = .ok e ∧
      ((Interpreter.make { WaitSettings.standard with unitSeconds := .int n } []).executeAll
        (.start e) ["WAIT 1"]).1 = .error (.number .outOfRange)) := by
  constructor
  · let m : MotionSettings := { MotionSettings.instant with frames := .int n }
    have hi : m.frameInterval = .error .outOfRange :=
      MotionSettings.frameInterval_large hn rfl rfl
    refine ⟨{ Engine.corridor with settings := m }, rfl, ?_⟩
    exact execute_stuck (Performance.start_isClear _) rfl hi (by rfl)
  · let t : WaitSettings := { WaitSettings.standard with unitSeconds := .int n }
    have hs : t.seconds (.int (1 : Nat)) = .error .outOfRange := seconds_large hn rfl rfl
    refine ⟨{ Engine.corridor with settings := .instant }, rfl, ?_⟩
    exact execute_untimed (Performance.start_isClear _) hs

/-- With timely settings the lines of a compiled program, executed one after another, go through
and do what the program does directly: the same calls in the same order, up to the same pose at the
same time. No branch stays open, and the queue comes to the same. -/
theorem compile_keeps_meaning {p : Program} {wait : WaitSettings} {e : Engine}
    (hp : standard.compile p = .ok lines) (hc : IsCounted wait p) (hm : e.settings.IsTimely) :
    ∃ results y, perform wait p (.start e) = .ok y ∧
      (Interpreter.make wait []).executeAll (.start e) lines =
        (.ok results, .make wait [], y) ∧
      (Outcome.ofEngine e wait (lines.map .text)).queue.final =
        ⟨.make wait [], y.engine, results, [], none, none⟩ := by
  obtain ⟨body, hs, hp⟩ := bind_eq_ok hp
  split at hp
  · cases hp
  · cases hp
    have hready := Stage.start_isReady hm
    obtain ⟨results, y, hy, _, hx⟩ :=
      (sequence_means hc hs).runs (.make wait []) _ ⟨rfl, rfl⟩ rfl hready
    obtain ⟨_, _, _, hfinal, _⟩ := Queue.run_settles (Interpreter.make_isHonest wait) e
      (lines.map .text)
    have hout := Interpreter.ofLines_executeAll hready.clear hx []
    exact ⟨results, y, hy, hx, hfinal.trans hout⟩

/-- Two steps, with a turn wherever a wall is ahead, and a pause. -/
def patrol : Program :=
  [.repeatTimes (.int 2)
    [.mk "move_forward" [] [] [],
     .ifThen (some (.mk "is_wall_ahead" [] [] [])) [.mk "turn_left" [] [] []]],
   .mk "wait" [("SECONDS", .int 3)] [] []]

theorem patrol_isCounted : IsCounted .standard patrol := by
  have hmove : Counts [] "CELLS" := ⟨1, by decide, rfl⟩
  have hwait : Counts [("SECONDS", .int 3)] "SECONDS" := ⟨3, by decide, rfl⟩
  have ht : WaitSettings.standard.IsTimely 3 :=
    WaitSettings.standard_isTimely (k := 2) (by decide) (by decide)
  have hn : (countOf [("SECONDS", .int 3)] "SECONDS").toNat = 3 := rfl
  simp [patrol, Block.repeatTimes, Block.ifThen, IsCounted, IsCountedBlock, IsCountedBody, IsDeed,
    hmove, hwait, hn, ht]

theorem compile_keeps_meaning_patrol :
    standard.compile patrol = .ok
        ["MOVE_FORWARD 1", "IF IS_WALL_AHEAD", "TURN_LEFT", "END_IF",
         "MOVE_FORWARD 1", "IF IS_WALL_AHEAD", "TURN_LEFT", "END_IF", "WAIT 3"] ∧
      ∃ results y, perform .standard patrol (.start .corridor) = .ok y ∧
        (Interpreter.make .standard []).executeAll (.start .corridor)
          ["MOVE_FORWARD 1", "IF IS_WALL_AHEAD", "TURN_LEFT", "END_IF",
           "MOVE_FORWARD 1", "IF IS_WALL_AHEAD", "TURN_LEFT", "END_IF", "WAIT 3"] =
          (.ok results, .make .standard [], y) := by
  have hp : standard.compile patrol = .ok
      ["MOVE_FORWARD 1", "IF IS_WALL_AHEAD", "TURN_LEFT", "END_IF",
       "MOVE_FORWARD 1", "IF IS_WALL_AHEAD", "TURN_LEFT", "END_IF", "WAIT 3"] := by rfl
  obtain ⟨results, y, hy, hx, _⟩ := compile_keeps_meaning (e := .corridor) hp patrol_isCounted
    MotionSettings.standard_isTimely
  exact ⟨hp, results, y, hy, hx⟩

theorem compile_keeps_meaning_vast :
    (∃ lines e, standard.compile [.mk "move_forward" [] [] []] = .ok lines ∧
      Engine.make Engine.corridor.world none
        { MotionSettings.instant with frames := .int (10^309) } = .ok e ∧
      ((Interpreter.make .standard []).executeAll (.start e) lines).1 =
        .error (.number .outOfRange)) ∧
    (∃ lines e, standard.compile [.mk "wait" [] [] []] = .ok lines ∧
      Engine.make Engine.corridor.world none .instant = .ok e ∧
      ((Interpreter.make { WaitSettings.standard with unitSeconds := .int (10^309) } []).executeAll
        (.start e) lines).1 = .error (.number .outOfRange)) := by
  have hn : Number.toBinary64 (.int (10^309)) = .error .outOfRange :=
    Number.toBinary64_of_infinite (by decide +kernel)
  obtain ⟨⟨d, hd, hmove⟩, e, he, hwait⟩ := stuck_of_large hn
  exact ⟨⟨_, d, by rfl, hd, hmove⟩, _, e, by rfl, he, hwait⟩

end Program

end Courier
