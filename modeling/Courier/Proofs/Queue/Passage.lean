import Courier.Proofs.Queue.Instant

namespace Courier.Queue

/-- What an operation of the queue takes from the orders and adds to the lines to be taken. -/
structure Spends (n : Nat) (q r : Queue) : Prop where
  orders : r.orders.Sublist q.orders
  backlog : r.backlog.length ≤ q.backlog.length + n

namespace Spends

variable {n : Nat} {q r s : Queue}

theorem same (ho : r.orders = q.orders) (hp : r.pending = q.pending) : Spends n q r where
  orders := ho ▸ .refl _
  backlog := by simp [Queue.backlog, ho, hp]

theorem trans (h : Spends n q r) (g : Spends 0 r s) : Spends n q s where
  orders := g.orders.trans h.orders
  backlog := by
    have hr := h.backlog
    have hs := g.backlog
    omega

/-- Other lines pending. -/
theorem replace (pending : List Line) (ho : r.orders = q.orders) (hp : r.pending = pending) :
    Spends pending.length q r where
  orders := ho ▸ .refl _
  backlog := by
    simp only [Queue.backlog, ho, hp, List.length_append]
    omega

end Spends

theorem takeOrder_spends {o : Occasion} {q r : Queue} {c : Call}
    (h : q.takeOrder? o = some (c, r)) :
    (∃ d ∈ q.orders, d.call = c) ∧ r = { q with orders := r.orders } ∧
      r.orders.Sublist q.orders ∧
      r.backlog.length + c.lines.length = q.backlog.length := by
  obtain ⟨d, hd, he⟩ := Option.map_eq_some_iff.mp h
  cases he
  obtain ⟨hsame, as, bs, hq, has⟩ := List.find?_eq_some_iff_append.mp hd
  have herase : q.orders.eraseP (·.occasion.same o) = as ++ bs := by
    rw [hq, List.eraseP_append_right _ (by simpa using has)]
    exact congrArg (as ++ ·) (List.eraseP_cons_of_pos hsame)
  refine ⟨⟨d, List.mem_of_find?_eq_some hd, rfl⟩, rfl, List.eraseP_sublist, ?_⟩
  simp only [backlog, herase]
  simp only [hq, List.length_append, List.length_flatMap, List.map_append, List.map_cons,
    List.sum_append, List.sum_cons]
  omega

section Answered

variable {answer : Call → Queue → Queue}

theorem spends_reactWithin (ha : ∀ c q, Spends c.lines.length q (answer c q)) (o : Occasion)
    (bound : Nat) (q : Queue) : Spends 0 q (q.reactWithin answer o bound) := by
  induction bound generalizing q with
  | zero => exact .same rfl rfl
  | succ bound ih =>
    unfold reactWithin
    cases h : q.takeOrder? o with
    | none => exact .same rfl rfl
    | some cr =>
      obtain ⟨c, r⟩ := cr
      obtain ⟨_, _, hsub, hlen⟩ := takeOrder_spends h
      have hg := (ha c r).trans (ih (answer c r))
      refine ⟨hg.orders.trans hsub, ?_⟩
      have hb := hg.backlog
      dsimp only
      omega

theorem spends_announce (ha : ∀ c q, Spends c.lines.length q (answer c q)) (q : Queue) :
    Spends 0 q (q.announce answer) := by
  unfold announce react
  have hr : Spends 0 q (q.record (.state q.snapshot)) := .same rfl rfl
  exact (hr.trans (spends_reactWithin ha _ _ _)).trans (spends_reactWithin ha _ _ _)

theorem spends_kick (q : Queue) : Spends 0 q q.kick := by
  unfold kick
  split
  · exact .same rfl rfl
  · exact .same rfl rfl

theorem spends_shift (status : Status) (q : Queue) : Spends 0 q (q.shift status) := by
  obtain ⟨a, he⟩ := Instant.shift_eq status q
  rw [he]
  exact .same rfl rfl

theorem spends_callVia (ha : ∀ c q, Spends c.lines.length q (answer c q)) (c : Call) (q : Queue) :
    Spends c.lines.length q (q.callVia answer c) := by
  have hb (status : Status) (r : Queue) : Spends 0 r (r.become answer status) :=
    (spends_shift status r).trans (spends_announce ha _)
  have hstart : Spends 0 q (q.become answer .running).kick := (hb .running q).trans (spends_kick _)
  have hrenew (reason : String) (pending : List Line) :
      Spends pending.length q (q.renew reason pending) := .replace pending rfl rfl
  cases c with
  | run lines => exact ((hrenew runReason lines).trans (hb .running _)).trans (spends_kick _)
  | enqueue line =>
    have hp : Spends 1 q { q with pending := q.pending ++ [line] } := by
      refine ⟨.refl _, ?_⟩
      simp only [backlog, List.length_append, List.length_singleton]
      omega
    exact (hp.trans (spends_announce ha _)).trans (spends_kick _)
  | setQueue lines =>
    have hp : Spends lines.length q { q with pending := lines } := .replace lines rfl rfl
    exact (hp.trans (spends_announce ha _)).trans (spends_kick _)
  | start =>
    simp only [callVia]
    split
    · exact hstart
    · exact hstart
    · exact .same rfl rfl
  | pause =>
    simp only [callVia]
    split
    · have hc : Spends 0 q (q.cancelInFlight "paused") := .same rfl rfl
      exact hc.trans (hb .paused _)
    · exact .same rfl rfl
  | resume =>
    simp only [callVia]
    split
    · exact hstart
    · exact .same rfl rfl
  | stop => exact (hrenew "stopped" []).trans (hb .idle _)

end Answered

/-- The orders left are for certain calls only. -/
def Allows (K : Call → Prop) (q : Queue) : Prop := ∀ o ∈ q.orders, K o.call

theorem Allows.spends {K : Call → Prop} {n : Nat} {q r : Queue} (h : Allows K q)
    (hs : Spends n q r) : Allows K r :=
  fun o ho => h o (hs.orders.subset ho)

end Courier.Queue

namespace Courier.Instant

open Queue (Spends Allows)

/-- Observers, and nobody else, make calls, all of a certain kind. -/
def Answers (K : Call → Prop) (b : Instant) (l : Option Turn) : Prop :=
  ∀ t, l = some t → b.duties ≠ [] ∧ ∃ c, K c ∧ t = .call c

/-- Between two lines if the worker goes on, and at rest otherwise. -/
def ofReport (r : Queue × Bool) : Instant := ⟨r.1, [], if r.2 then .taking else .resting⟩

variable {K : Call → Prop} {answer : Call → Queue → Queue} {q r : Queue} {ds : List Duty}
  {p : Phase}

theorem passes_own {m n : Instant} (h : Step m none n) : Passes (Answers K) m n :=
  .single h (fun _ ht => by cases ht)

theorem passes_advance (q : Queue) (hp : p ≠ .resting) :
    Passes (Answers K) ⟨q, [], p⟩ (advance q p) :=
  passes_own (.advance q hp)

/-- Answers that are passages themselves. -/
structure Acts (K : Call → Prop) (answer : Call → Queue → Queue) : Prop where
  spends : ∀ c q, Spends c.lines.length q (answer c q)
  passes : ∀ {c q}, K c → Allows K q → ∀ m ds p,
    Passes (Answers K) ⟨q, .heed m :: ds, p⟩ ⟨answer c q, .heed m :: ds, p⟩

theorem passes_reactWithin (ha : Acts K answer) (o : Occasion) (bound : Nat) (hq : Allows K q)
    (m : Moment) (ds : List Duty) (p : Phase) :
    Passes (Answers K) ⟨q, .heed m :: ds, p⟩ ⟨q.reactWithin answer o bound, .heed m :: ds, p⟩ := by
  induction bound generalizing q with
  | zero => exact .refl
  | succ bound ih =>
    unfold Queue.reactWithin
    cases h : q.takeOrder? o with
    | none => exact .refl
    | some cr =>
      obtain ⟨c, r⟩ := cr
      obtain ⟨⟨d, hd, hc⟩, hr, hsub, _⟩ := Queue.takeOrder_spends h
      have hallows : Allows K r := fun o ho => hq o (hsub.subset ho)
      have horder : Passes (Answers K) ⟨q, .heed m :: ds, p⟩ ⟨r, .heed m :: ds, p⟩ := by
        rw [hr]
        exact passes_own (.order q m ds p r.orders)
      exact (horder.trans (ha.passes (hc ▸ hq d hd) hallows m ds p)).trans
        (ih (hallows.spends (ha.spends c r)))

theorem passes_react (ha : Acts K answer) (o : Occasion) (hq : Allows K q) (m : Moment)
    (ds : List Duty) (p : Phase) :
    Passes (Answers K) ⟨q, .heed m :: ds, p⟩ ⟨q.react answer o, ds, p⟩ :=
  (passes_reactWithin ha o _ hq m ds p).trans (passes_own (.heeded _ m ds p))

theorem passes_announce (ha : Acts K answer) (hq : Allows K q) (ds : List Duty) (p : Phase) :
    Passes (Answers K) (announce q ds p) ⟨q.announce answer, ds, p⟩ := by
  unfold announce Queue.announce
  have hstatus := passes_reactWithin (q := q.record (.state q.snapshot)) ha
    ⟨.status, .text q.snapshot.status.name⟩ q.orders.length hq .status ds p
  have hrecord : Allows K (q.record (.state q.snapshot)) := hq
  have hallows := hrecord.spends (Queue.spends_reactWithin ha.spends
    ⟨.status, .text q.snapshot.status.name⟩ q.orders.length _)
  exact hstatus.trans (passes_react ha _ hallows .status ds p)

theorem passes_kicked (ha : Acts K answer) (hq : Allows K q) (ds : List Duty) (p : Phase) :
    Passes (Answers K) (announce q (.kick :: ds) p) ⟨(q.announce answer).kick, ds, p⟩ :=
  (passes_announce ha hq _ p).trans (passes_own (.kick _ ds p))

theorem passes_callVia (ha : Acts K answer) (hq : Allows K q) (c : Call) (ds : List Duty)
    (p : Phase) : Passes (Answers K) (call q ds p c) ⟨q.callVia answer c, ds, p⟩ := by
  have hshift (status : Status) (r : Queue) (ho : r.orders = q.orders) :
      Allows K (r.shift status) := by
    have hr : Allows K r := fun o hm => hq o (ho ▸ hm)
    exact hr.spends (Queue.spends_shift status r)
  have hstart := passes_kicked ha (hshift .running q rfl) ds p
  cases c with
  | run lines => exact passes_kicked ha (hshift .running (q.renew Queue.runReason lines) rfl) ds p
  | enqueue line => exact passes_kicked (q := { q with pending := q.pending ++ [line] }) ha hq ds p
  | setQueue lines => exact passes_kicked (q := { q with pending := lines }) ha hq ds p
  | start =>
    simp only [call, Queue.callVia]
    cases q.status with
    | idle => exact hstart
    | paused => exact hstart
    | running => exact .refl
    | error => exact .refl
  | pause =>
    simp only [call, Queue.callVia]
    cases q.status with
    | running => exact passes_announce ha (hshift .paused (q.cancelInFlight "paused") rfl) ds p
    | idle => exact .refl
    | paused => exact .refl
    | error => exact .refl
  | resume =>
    simp only [call, Queue.callVia]
    cases q.status with
    | paused => exact hstart
    | idle => exact .refl
    | running => exact .refl
    | error => exact .refl
  | stop => exact passes_announce ha (hshift .idle (q.renew "stopped" []) rfl) ds p

theorem acts_callVia (ha : Acts K answer) : Acts K (Queue.callVia answer) where
  spends := Queue.spends_callVia ha.spends
  passes := by
    intro c q hc hq m ds p
    refine .trans (.single (.answer q m ds p c) ?_) (passes_callVia ha hq c _ p)
    intro t ht
    cases ht
    exact ⟨by simp, c, hc, rfl⟩

theorem acts_callWithin (depth : Nat) : Acts K (Queue.callWithin depth) := by
  induction depth with
  | zero =>
    have hkeep : Acts K (fun _ q => q) := ⟨fun _ _ => .same rfl rfl, fun _ _ _ _ _ => .refl⟩
    exact acts_callVia hkeep
  | succ depth ih => exact acts_callVia ih

theorem acts_call : Acts K Queue.call where
  spends c q := (acts_callWithin (K := K) q.orders.length).spends c q
  passes hc hq := (acts_callWithin _).passes hc hq

theorem passes_call (hq : Allows K q) (c : Call) (ds : List Duty) (p : Phase) :
    Passes (Answers K) (call q ds p c) ⟨q.call c, ds, p⟩ := by
  unfold Queue.call
  cases q.orders.length with
  | zero => exact passes_callVia ⟨fun _ _ => .same rfl rfl, fun _ _ _ _ _ => .refl⟩ hq c ds p
  | succ depth => exact passes_callVia (acts_callWithin depth) hq c ds p

-- The worker.

/-- An operation of the worker in one go, and the instant at which it begins. -/
structure Makes (K : Call → Prop) (q : Queue) (m : Instant) (r : Queue × Bool) : Prop where
  spends : Spends 0 q r.1
  passes : Allows K q → Passes (Answers K) m (ofReport r)

theorem spends_announced (q : Queue) : Spends 0 q (q.announce Queue.call) :=
  Queue.spends_announce (acts_call (K := fun _ => True)).spends q

theorem spends_react (o : Occasion) (q : Queue) : Spends 0 q (q.react Queue.call o) :=
  Queue.spends_reactWithin (acts_call (K := fun _ => True)).spends o _ q

theorem makes_complete (q : Queue) (r : StepResult) :
    Makes K q (complete q r) (q.complete r, true) := by
  let s := (q.tally r).record (.step r)
  have htally : Spends 0 q s := .same rfl rfl
  have hs := htally.trans (spends_react ⟨.step, .text r.instruction.text⟩ s)
  refine ⟨hs.trans (spends_announced _), fun hq => ?_⟩
  have hreact : Passes (Answers K) (complete q r)
      ⟨s.react Queue.call ⟨.step, .text r.instruction.text⟩, [], .telling⟩ :=
    passes_react (q := s) acts_call _ hq .step [] .telling
  have htell := passes_advance (K := K)
    (s.react Queue.call ⟨.step, .text r.instruction.text⟩) (p := .telling) (by simp)
  exact (hreact.trans htell).trans (passes_announce acts_call (hq.spends hs) [] .taking)

theorem makes_abandon (q : Queue) (line : Line) :
    Makes K q (abandon q line) (q.abandon line, true) := by
  have hs : Spends 0 q (q.giveUp line) := .same rfl rfl
  have ha := hs.trans (spends_announced (q.giveUp line))
  refine ⟨ha.trans (.same rfl rfl), fun hq => ?_⟩
  have hannounce := passes_announce (K := K) acts_call (hq.spends hs) [] (.releasing line)
  exact hannounce.trans (passes_advance _ (by simp))

theorem makes_fail (q : Queue) (f : Fault) : Makes K q (fail q f) (q.fail f, false) := by
  have hb : Spends 0 q (q.blame f) := .same rfl rfl
  have hs := hb.trans (Queue.spends_shift .error _)
  have ha := hs.trans (spends_announced _)
  refine ⟨ha.trans (.same rfl rfl), fun hq => ?_⟩
  have hannounce := passes_announce (K := K) acts_call (hq.spends hs) [] (.leaving true)
  exact hannounce.trans (passes_advance _ (by simp))

theorem Makes.after {m : Instant} {x : Queue × Bool} (h : Makes K r m x)
    (hs : Spends 0 q r) : Makes K q m x :=
  ⟨hs.trans h.spends, fun hq => h.passes (hq.spends hs)⟩

theorem makes_finish (q : Queue) : Makes K q (finish q) (q.finish, false) := by
  unfold finish Queue.finish
  cases q.interpreter.checkBalanced with
  | error f => exact makes_fail q f
  | ok u =>
    have hs := Queue.spends_shift .idle q
    have ha := hs.trans (spends_announced _)
    refine ⟨ha.trans (.same rfl rfl), fun hq => ?_⟩
    have hannounce := passes_announce (K := K) acts_call (hq.spends hs) [] (.leaving false)
    exact hannounce.trans (passes_advance _ (by simp))

theorem spends_wonder (q : Queue) (line : Line) (f : Fault) : Spends 0 q (q.wonder line f) := by
  unfold Queue.wonder
  split
  · exact .same rfl rfl
  · exact .same rfl rfl

theorem makes_stumble (q : Queue) (line : Line) (f : Fault) :
    Makes K q (stumble q line f) (q.stumble line f) := by
  have hfail := (makes_fail (K := K) (q.wonder line f) f).after (spends_wonder q line f)
  cases f with
  | cancelled reason => exact makes_abandon q line
  | _ => exact hfail

theorem spends_apply (q : Queue) (e : Effect) : Spends 0 q (q.apply e) := by
  have hf (f : Frame) (r : Queue) (ho : r.orders = q.orders) (hp : r.pending = q.pending) :
      Spends 0 q ((r.record (.frame r.now f)).react Queue.call ⟨.frame, .int r.frames⟩) := by
    have hr : Spends 0 q (r.record (.frame r.now f)) := .same ho hp
    exact hr.trans (spends_react _ _)
  cases e with
  | publish f =>
    exact hf f { q with engine := q.engine.apply (.publish f), frames := q.frames+1 } rfl rfl
  | commit s =>
    exact hf (.still s) { q with engine := q.engine.apply (.commit s), frames := q.frames+1 }
      rfl rfl
  | complete => exact .same rfl rfl
  | remark r => exact .same rfl rfl

theorem passes_display (hq : Allows K q) (e : Effect) (p : Phase) :
    Passes (Answers K) (display q e p) ⟨q.apply e, [], p⟩ := by
  have hf (f : Frame) (r : Queue) (hr : Allows K r) :
      Passes (Answers K) ⟨r.record (.frame r.now f), [.heed .frame], p⟩
        ⟨(r.record (.frame r.now f)).react Queue.call ⟨.frame, .int r.frames⟩, [], p⟩ :=
    passes_react (q := r.record (.frame r.now f)) acts_call _ hr .frame [] p
  cases e with
  | publish f =>
    exact hf f { q with engine := q.engine.apply (.publish f), frames := q.frames+1 } hq
  | commit s =>
    exact hf (.still s) { q with engine := q.engine.apply (.commit s), frames := q.frames+1 } hq
  | complete => exact .refl
  | remark r => exact .refl

theorem spends_applyAll (q : Queue) (es : List Effect) : Spends 0 q (q.applyAll es) := by
  induction es generalizing q with
  | nil => exact .same rfl rfl
  | cons e es ih => exact (spends_apply q e).trans (ih (q.apply e))

theorem passes_showing (hq : Allows K q) (es : List Effect) (s : Sequel) :
    Passes (Answers K) ⟨q, [], .showing es s⟩ (follow (q.applyAll es) s) := by
  induction es generalizing q with
  | nil => exact passes_advance q (by simp)
  | cons e es ih =>
    have hstep := passes_advance (K := K) q (p := .showing (e :: es) s) (by simp)
    exact (hstep.trans (passes_display hq e _)).trans (ih (hq.spends (spends_apply q e)))

theorem makes_interrupt (q : Queue) (line : Line) (job : Job) (f : Fault) :
    Makes K q (interrupt q line job f) (q.interrupt line job f) := by
  unfold interrupt Queue.interrupt
  dsimp only
  split
  · let e := Effect.publish (.still q.engine.committed)
    have hm := (makes_stumble (K := K) (q.apply e) line f).after (spends_apply q e)
    exact ⟨hm.spends, fun hq => (passes_showing hq [e] (.stumble line f)).trans (hm.passes hq)⟩
  · exact makes_stumble q line f

theorem makes_sleep (q : Queue) (line : Line) (i : Instruction) (job : Job) (seconds : Number) :
    Makes K q (sleep q line i job seconds) (q.sleep line i job seconds) := by
  unfold sleep Queue.sleep
  cases q.tokenCheck with
  | error f => exact makes_interrupt q line job f
  | ok u =>
    dsimp only
    cases seconds.le (.int 0) with
    | true => exact ⟨.same rfl rfl, fun _ => .refl⟩
    | false =>
      cases Watch.timeAfter q.now q.now seconds with
      | ok time => exact ⟨.same rfl rfl, fun _ => .refl⟩
      | error f => exact makes_stumble q line (.number f)

theorem makes_proceed (q : Queue) (line : Line) (i : Instruction) (s : Stretch) :
    Makes K q (proceed q line i s) (q.proceed line i s) := by
  have hm : Makes K q (follow (q.applyAll s.effects) (.next line i s.next))
      (q.proceed line i s) := by
    unfold Queue.proceed
    have hs := spends_applyAll q s.effects
    cases s.next with
    | pause seconds a => exact (makes_sleep _ line i (.act a) seconds).after hs
    | done a => exact (makes_complete _ _).after hs
    | failed f => exact (makes_stumble _ line f).after hs
  exact ⟨hm.spends, fun hq => (passes_showing hq s.effects _).trans (hm.passes hq)⟩

theorem spends_heed (q : Queue) (o : Opening) : Spends 0 q (q.heed o) := by
  unfold Queue.heed
  cases o.evaluated <;> cases o.skipped <;> exact .same rfl rfl

theorem makes_execute (q : Queue) (line : Line) :
    Makes K q (execute q line) (q.execute line) := by
  unfold execute Queue.execute
  dsimp only
  generalize q.interpreter.openLine _ _ _ = o
  have hs := spends_heed q o
  cases o.result with
  | error f => exact (makes_stumble _ line f).after hs
  | ok x =>
    obtain ⟨i, d, branches⟩ := x
    have hb : Spends 0 q { q.heed o with interpreter :=
        { (q.heed o).interpreter with branches } } := hs.trans (.same rfl rfl)
    cases d with
    | finished r => exact (makes_complete _ r).after hb
    | act a => exact (makes_proceed _ line i _).after hb
    | wait seconds => exact (makes_sleep _ line i .wait seconds).after hb

theorem makes_dispatch (q : Queue) (line : Line) (pending : List Line) :
    Makes K (q.pick line pending) (announce (q.pick line pending) [] (.executing line))
      ((q.dispatch line pending).execute line) := by
  have ha : Spends 0 (q.pick line pending) (q.dispatch line pending) := spends_announced _
  have hm := (makes_execute (K := K) (q.dispatch line pending) line).after ha
  refine ⟨hm.spends, fun hq => ?_⟩
  have hannounce := passes_announce (K := K) acts_call hq [] (.executing line)
  exact (hannounce.trans (passes_advance _ (by simp))).trans (hm.passes hq)

/-- A line that is taken is no longer among those to be taken. -/
theorem makes_takeLine (q : Queue) :
    Makes K q (take q) q.takeLine ∧
      (q.takeLine.2 = true → q.takeLine.1.backlog.length < q.backlog.length) := by
  unfold take Queue.takeLine
  cases q.status with
  | running =>
    cases hp : q.pending with
    | nil => exact ⟨makes_finish q, by simp⟩
    | cons line pending =>
      have hpick : (q.pick line pending).backlog.length < q.backlog.length := by
        simp [Queue.backlog, Queue.pick, hp]
      have hm := makes_dispatch (K := K) q line pending
      have hs : Spends 0 q (q.pick line pending) := ⟨.refl _, Nat.le_of_lt hpick⟩
      exact ⟨hm.after hs, fun _ => Nat.lt_of_le_of_lt hm.spends.backlog hpick⟩
  | _ => exact ⟨⟨.same rfl rfl, fun _ => .refl⟩, by simp⟩

/-- The bound is never met. -/
theorem makes_takeLines {bound : Nat} (hb : q.backlog.length < bound) :
    Makes K q ⟨q, [], .taking⟩ (q.takeLines bound, false) := by
  induction bound generalizing q with
  | zero => omega
  | succ bound ih =>
    obtain ⟨hm, hlt⟩ := makes_takeLine (K := K) q
    have hstart := passes_advance (K := K) q (p := .taking) (by simp)
    unfold Queue.takeLines
    generalize q.takeLine = x at hm hlt
    obtain ⟨r, goes⟩ := x
    cases goes with
    | true =>
      have hless : r.backlog.length < bound := Nat.lt_of_lt_of_le (hlt rfl) (by omega)
      have hrest := ih hless
      exact ⟨hm.spends.trans hrest.spends, fun hq =>
        (hstart.trans (hm.passes hq)).trans (hrest.passes (hq.spends hm.spends))⟩
    | false => exact ⟨hm.spends, fun hq => hstart.trans (hm.passes hq)⟩

theorem makes_takeAll (q : Queue) : Makes K q ⟨q, [], .taking⟩ (q.takeAll, false) :=
  makes_takeLines (Nat.lt_succ_self _)

theorem makes_wakeUp (q : Queue) (line : Line) (i : Instruction) (job : Job) :
    Makes K q (wake q line i job) (q.wakeUp line i job) := by
  unfold wake Queue.wakeUp
  cases q.tokenCheck with
  | error f => exact makes_interrupt q line job f
  | ok u =>
    cases job with
    | act a => exact makes_proceed q line i _
    | wait => exact makes_complete q _

theorem makes_work (q : Queue) : Makes K q (begin q .work) (q.work, false) := by
  have hs : Spends 0 q { q with worker := .busy } := .same rfl rfl
  simp only [begin]
  cases hw : q.worker with
  | absent => rw [Queue.work_idle (.inl hw)]; exact ⟨.same rfl rfl, fun _ => .refl⟩
  | busy => rw [Queue.work_idle (.inr hw)]; exact ⟨.same rfl rfl, fun _ => .refl⟩
  | fresh => rw [Queue.work_fresh hw]; exact (makes_takeAll _).after hs
  | asleep line i job time =>
    rw [Queue.work_asleep hw]
    have hm := (makes_wakeUp (K := K) { q with worker := .busy } line i job).after hs
    generalize ({ q with worker := .busy } : Queue).wakeUp line i job = x at hm
    obtain ⟨r, goes⟩ := x
    cases goes with
    | true =>
      have hrest := makes_takeAll (K := K) r
      exact ⟨hm.spends.trans hrest.spends, fun hq =>
        (hm.passes hq).trans (hrest.passes (hq.spends hm.spends))⟩
    | false => exact hm

theorem passes_begin (hq : Allows K q) (t : Turn) :
    Passes (Answers K) (begin q t) (ofQueue (q.turn t)) := by
  cases t with
  | call c => exact passes_call hq c [] .resting
  | given isRun v =>
    simp only [begin, Queue.turn, Queue.callWithLines]
    cases v.parts with
    | ok lines => exact passes_call hq _ [] .resting
    | error f => cases isRun <;> exact .refl
  | leave o => exact .refl
  | register name c => exact .refl
  | reset pose =>
    simp only [begin, Queue.turn, Queue.resetEngine]
    cases q.engine.resetStance pose with
    | ok s => exact passes_showing hq [.commit s] .rest
    | error f => exact .refl
  | clock time => exact .refl
  | work => exact (makes_work q).passes hq

/-- Observers that are left no other orders make no other calls. -/
theorem allows_turn (hq : Allows K q) {t : Turn} (ht : ∀ o, t = .leave o → K o.call) :
    Allows K (q.turn t) := by
  have hcall (c : Call) : Allows K (q.call c) := hq.spends ((acts_call (K := K)).spends c q)
  cases t with
  | call c => exact hcall c
  | given isRun v =>
    simp only [Queue.turn, Queue.callWithLines]
    cases v.parts with
    | ok lines => exact hcall _
    | error f => cases isRun <;> exact hq
  | leave o =>
    intro d hd
    rcases List.mem_append.mp hd with hd | hd
    · exact hq d hd
    · rw [List.mem_singleton.mp hd]
      exact ht o rfl
  | register name c => exact hq
  | reset pose =>
    simp only [Queue.turn, Queue.resetEngine]
    cases q.engine.resetStance pose with
    | ok s => exact hq.spends (spends_apply q (.commit s))
    | error f => exact hq
  | clock time => exact hq
  | work => exact hq.spends (makes_work (K := K) q).spends

theorem allows_after (hq : Allows K q) {ts : List Turn} (ht : ∀ o, .leave o ∈ ts → K o.call) :
    Allows K (q.after ts) := by
  induction ts generalizing q with
  | nil => exact hq
  | cons t ts ih =>
    have hturn := allows_turn hq (t := t) (fun o ho => ht o (by simp [ho]))
    exact ih hturn (fun o ho => ht o (by simp [ho]))

theorem allows_make (t : Interpreter) (e : Engine) : Allows K (.make t e) := by
  simp [Allows, Queue.make]

/-- Some turns, and calls of a certain kind by observers. -/
def Within (K : Call → Prop) (ts : List Turn) (b : Instant) (l : Option Turn) : Prop :=
  ∀ t, l = some t → b.IsQuiet ∧ t ∈ ts ∨ b.duties ≠ [] ∧ ∃ c, K c ∧ t = .call c

section Silent

variable {b : Instant} {l : Option Turn}

theorem Answers.silent (h : Answers (fun _ => False) b l) : l = none := by
  cases l with
  | none => rfl
  | some t =>
    obtain ⟨_, c, hc, _⟩ := h t rfl
    exact hc.elim

/-- If no orders are left, all that is asked of the queue is asked by the turns. -/
theorem Within.silent {ts : List Turn} (h : Within (fun _ => False) ts b l) {t : Turn}
    (hl : l = some t) : b.IsQuiet ∧ t ∈ ts := by
  rcases h t hl with hquiet | ⟨_, c, hc, _⟩
  · exact hquiet
  · exact hc.elim

end Silent

/-- What the queue does at a turn in one go is a passage from instant to instant, in which observers
make such calls only as they were left orders for. -/
theorem turn_passes (hq : Allows K q) (t : Turn) :
    Passes (Within K [t]) (ofQueue q) (ofQueue (q.turn t)) := by
  have hbegin : Passes (Within K [t]) (ofQueue q) (begin q t) := by
    refine .single (.turn q t) (fun u hu => .inl ⟨⟨rfl, rfl⟩, ?_⟩)
    simpa using hu.symm
  exact hbegin.trans ((passes_begin hq t).mono (fun b l h u hu => .inr (h u hu)))

theorem after_passes (hq : Allows K q) {ts : List Turn} (ht : ∀ o, .leave o ∈ ts → K o.call) :
    Passes (Within K ts) (ofQueue q) (ofQueue (q.after ts)) := by
  induction ts generalizing q with
  | nil => exact .refl
  | cons t ts ih =>
    have hallows := allows_turn hq (t := t) (fun o ho => ht o (by simp [ho]))
    have hturn : Passes (Within K (t :: ts)) (ofQueue q) (ofQueue (q.turn t)) := by
      refine (turn_passes hq t).mono (fun b l h u hu => (h u hu).imp_left ?_)
      exact fun ⟨hb, hmem⟩ => ⟨hb, by simp [List.mem_singleton.mp hmem]⟩
    have hrest := (ih hallows (fun o ho => ht o (by simp [ho]))).mono
      (Q := Within K (t :: ts)) (fun b l h u hu => (h u hu).imp_left
        (fun ⟨hb, hmem⟩ => ⟨hb, List.mem_cons_of_mem t hmem⟩))
    exact hturn.trans hrest

end Courier.Instant
