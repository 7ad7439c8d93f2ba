import Courier.Proofs.Engine.Steady

namespace Courier

namespace Performance

/-- The same but for the clock. -/
structure Alike (p q : Performance) : Prop where
  engine : p.engine = q.engine
  frames : p.sightings.map (·.2) = q.sightings.map (·.2)
  remarks : p.remarks = q.remarks
  completions : p.completions = q.completions

namespace Alike

variable {p q r : Performance}

theorem refl (p : Performance) : p.Alike p := ⟨rfl, rfl, rfl, rfl⟩

theorem symm (h : p.Alike q) : q.Alike p :=
  ⟨h.engine.symm, h.frames.symm, h.remarks.symm, h.completions.symm⟩

theorem trans (h : p.Alike q) (k : q.Alike r) : p.Alike r :=
  ⟨h.engine.trans k.engine, h.frames.trans k.frames, h.remarks.trans k.remarks,
    h.completions.trans k.completions⟩

theorem withWatch (h : p.Alike q) (w : Watch) : p.Alike { q with watch := w } :=
  ⟨h.engine, h.frames, h.remarks, h.completions⟩

theorem withEngine (h : p.Alike q) (e : Engine) :
    ({ p with engine := e } : Performance).Alike { q with engine := e } :=
  ⟨rfl, h.frames, h.remarks, h.completions⟩

theorem sight (h : p.Alike q) (f : Frame) : (p.sight f).Alike (q.sight f) where
  engine := h.engine
  frames := by
    have hf := h.frames
    simp [Performance.sight, hf]
  remarks := h.remarks
  completions := h.completions

theorem foldl_sight (h : p.Alike q) (f : Frame) (os : List Nat) :
    (os.foldl (fun p _ => p.sight f) p).Alike (os.foldl (fun p _ => p.sight f) q) := by
  induction os generalizing p q with
  | nil => exact h
  | cons o os ih => exact ih (h.sight f)

theorem apply (h : p.Alike q) (e : Effect) : (p.apply e).Alike (q.apply e) := by
  have he : ({ p with engine := p.engine.apply e } : Performance).Alike
      { q with engine := q.engine.apply e } := by
    have hs := h.withEngine (p.engine.apply e)
    rwa [h.engine] at hs ⊢
  have ho : (p.engine.apply e).observers = (q.engine.apply e).observers := by rw [h.engine]
  unfold Performance.apply
  cases e with
  | publish f =>
    simp only [Engine.frameOf?, ho]
    exact he.foldl_sight f _
  | commit s =>
    simp only [Engine.frameOf?, ho]
    exact he.foldl_sight (.still s) _
  | complete => exact ⟨he.engine, h.frames, h.remarks, congrArg (· + 1) h.completions⟩
  | remark r => exact ⟨he.engine, h.frames, congrArg (· ++ [r]) h.remarks, h.completions⟩

theorem applyAll (h : p.Alike q) (es : List Effect) : (p.applyAll es).Alike (q.applyAll es) := by
  induction es generalizing p q with
  | nil => exact h
  | cons e es ih => exact ih (h.apply e)

end Alike

theorem applyAll_append (p : Performance) (es fs : List Effect) :
    p.applyAll (es ++ fs) = (p.applyAll es).applyAll fs := by
  simp [applyAll, List.foldl_append]

theorem completions_foldl_sight (p : Performance) (f : Frame) (os : List Nat) :
    (os.foldl (fun p _ => p.sight f) p).completions = p.completions :=
  List.foldlRecOn (motive := fun q : Performance => q.completions = p.completions) os _ rfl
    (fun _ hq _ _ => hq)

theorem completions_applyAll (p : Performance) (es : List Effect) :
    (p.applyAll es).completions = p.completions + Effect.completions es := by
  induction es generalizing p with
  | nil => rfl
  | cons e es ih =>
    have ha : (p.apply e).completions = p.completions + Effect.completions [e] := by
      cases e <;> simp [apply, Engine.frameOf?, completions_foldl_sight]
    have hs : Effect.completions (e :: es) = Effect.completions [e] + Effect.completions es :=
      Effect.completions_append [e] es
    have hi : ((p.apply e).applyAll es).completions =
        (p.apply e).completions + Effect.completions es := ih (p.apply e)
    change ((p.apply e).applyAll es).completions = _
    omega

theorem sightings_foldl_sight (p : Performance) (f : Frame) (os : List Nat) :
    (os.foldl (fun p _ => p.sight f) p).sightings =
      p.sightings ++ List.replicate os.length (p.watch.now, f) := by
  induction os generalizing p with
  | nil => simp
  | cons o os ih =>
    have hn : (p.sight f).watch.now = p.watch.now := by
      unfold sight
      dsimp only
      split <;> rfl
    have hs : (p.sight f).sightings = p.sightings ++ [(p.watch.now, f)] := rfl
    rw [List.foldl_cons, ih, hn, hs, List.append_assoc]
    rfl

/-- Every observer sees a frame once. -/
theorem sightings_publish (p : Performance) (f : Frame) :
    (p.apply (.publish f)).sightings =
      p.sightings ++ List.replicate p.engine.observers.length (p.watch.now, f) :=
  sightings_foldl_sight { p with engine := p.engine.apply (.publish f) } f _

theorem token_foldl_sight {p : Performance} {f : Fault} (h : p.watch.token.check = .error f)
    (x : Frame) (os : List Nat) :
    (os.foldl (fun p _ => p.sight x) p).watch.token.check = .error f := by
  refine List.foldlRecOn (motive := fun q : Performance => q.watch.token.check = .error f) os _ h ?_
  intro q hq o _
  simp only [sight]
  split
  · exact Token.check_cancel hq _
  · exact hq

theorem token_publish {p : Performance} {f : Fault} (h : p.watch.token.check = .error f)
    (x : Frame) : (p.apply (.publish x)).watch.token.check = .error f :=
  token_foldl_sight (p := { p with engine := p.engine.apply (.publish x) }) h x _

theorem completions_publish (p : Performance) (x : Frame) :
    (p.apply (.publish x)).completions = p.completions :=
  completions_foldl_sight { p with engine := p.engine.apply (.publish x) } x _

end Performance

/-- A stance some cells further, all of them free. -/
structure World.Strode (w : World) (sign : Int) (s : Stance) (n : Nat) (t : Stance) : Prop where
  free : ∀ i : Nat, 0 < i → i ≤ n → w.canEnter (s.ahead (sign*i))
  stance : t = { s with cell := s.ahead (sign*n) }

namespace World

variable {w : World} {s t : Stance} {sign : Int} {n : Nat}

theorem strode_zero (w : World) (sign : Int) (s : Stance) : w.Strode sign s 0 s where
  free i hi hn := by omega
  stance := by simp [Stance.ahead]

theorem strode_succ (h : w.Strode sign s n t) (hc : w.canEnter (t.ahead sign)) :
    w.Strode sign s (n+1) { t with cell := t.ahead sign } := by
  have ha : t.ahead sign = s.ahead (sign*(n+1 : Nat)) := by
    rw [h.stance, Stance.ahead_ahead]
    push_cast
    rw [mul_add, mul_one]
  constructor
  · intro i hi hn
    by_cases hl : i ≤ n
    · exact h.free i hi hl
    · have he : i = n+1 := by omega
      rw [he, ← ha]
      exact hc
  · rw [ha, h.stance]

end World

/-- Where a cancelled action may leave the agent: a move some cells further, anything else where it
was. -/
def Action.Partway (w : World) (s t : Stance) : Action → Prop
  | .move backward steps =>
    ∃ k ≤ (max 1 steps).toNat, w.Strode (if backward then -1 else 1) s k t
  | _ => t = s

/-- An action that began at `s` and pauses in an activity while `t` counts. -/
inductive Midway (w : World) (s : Stance) : Action → Stance → Activity → Prop
  | moving {backward : Bool} {steps : Int} {origin t target : Stance} {k : Nat} {trek : Trek}
    (hb : trek.backward = backward) (hn : trek.moved + trek.left < (max 1 steps).toNat)
    (ht : w.Strode trek.sign s trek.moved t) (hu : w.Strode trek.sign s (trek.moved+1) target) :
    Midway w s (.move backward steps) t (.gliding origin target k (some trek))
  | settling {backward : Bool} {steps : Int} {t : Stance} {trek : Trek}
    (hb : trek.backward = backward) (hn : trek.moved + trek.left ≤ (max 1 steps).toNat)
    (ht : w.Strode trek.sign s trek.moved t) :
    Midway w s (.move backward steps) t (.settling trek)
  | turning {left : Bool} {origin target : Stance} {k : Nat} :
    Midway w s (.turn left) s (.gliding origin target k none)
  | handling {a : Action} {origin : Stance} {k : Nat} {taking : Bool}
    (ha : a = .pickup ∨ a = .dropoff) : Midway w s a s (.squashing origin k taking)

theorem Trek.sign_eq {t : Trek} {backward : Bool} (h : t.backward = backward) :
    t.sign = if backward then -1 else 1 := by
  rw [sign, h]

theorem Midway.partway {w : World} {s t : Stance} {a : Action} {b : Activity}
    (h : Midway w s a t b) : a.Partway w s t := by
  cases h with
  | moving hb hn ht hu =>
    rw [Trek.sign_eq hb] at ht
    exact ⟨_, by omega, ht⟩
  | settling hb hn ht =>
    rw [Trek.sign_eq hb] at ht
    exact ⟨_, by omega, ht⟩
  | turning => rfl
  | handling ha =>
    rcases ha with rfl | rfl
    · rfl
    · rfl

/-- A stretch that leaves an action midway if it pauses, and the level not yet completed. -/
structure Stretch.Halts (w : World) (s : Stance) (a : Action) (t : Stance) (x : Stretch) :
    Prop where
  midway : ∀ seconds b, x.next = .pause seconds b → Midway w s a (t.after x.effects) b
  completions : ∀ seconds b, x.next = .pause seconds b → Effect.completions x.effects = 0

namespace Stretch

variable {m : MotionSettings} {w : World} {s t : Stance} {a : Action} {b : Activity} {x : Stretch}

theorem halts_of_ended (h : x.next.isPause = false) : Halts w s a t x := by
  constructor
  · intro seconds b hn
    rw [hn] at h
    cases h
  · intro seconds b hn
    rw [hn] at h
    cases h

theorem halts_pause (h : Midway w s a t b) (seconds : Except NumberFault Number) :
    Halts w s a t (.pause seconds b) := by
  cases seconds with
  | error f => exact halts_of_ended rfl
  | ok n =>
    constructor
    · intro seconds c hn
      cases hn
      exact h
    · intro seconds c hn
      rfl

theorem halts_after {es : List Effect} (hz : Effect.completions es = 0)
    (h : Halts w s a (t.after es) x) : Halts w s a t (.after es x) := by
  constructor
  · intro seconds c hn
    have hm := h.midway seconds c hn
    rwa [← Stance.after_append] at hm
  · intro seconds c hn
    have hc := h.completions seconds c hn
    simp only [after, Effect.completions_append]
    omega

theorem halts_glide {u : Stance} {trek : Option Trek}
    (h : Midway w s a t (.gliding t u 1 trek)) : Halts w s a t (Action.glide m t u trek) := by
  unfold Action.glide
  cases m.frames.count with
  | error f => exact halts_of_ended rfl
  | ok n => exact halts_pause h _

/-- Each unit move leads one cell further. -/
theorem halts_stride {trek : Trek} {backward : Bool} {steps : Int} (hb : trek.backward = backward)
    (hn : trek.moved + trek.left ≤ (max 1 steps).toNat) (ht : w.Strode trek.sign s trek.moved t) :
    Halts w s (.move backward steps) t (Action.stride m w t trek) := by
  unfold Action.stride
  cases hl : trek.left with
  | zero => exact halts_of_ended rfl
  | succ left =>
    dsimp only
    split
    · next hc =>
      have hu := World.strode_succ ht hc
      refine halts_glide (.moving hb ?_ ht hu)
      change trek.moved + left < _
      omega
    · exact halts_of_ended rfl

theorem halts_squash (ha : a = .pickup ∨ a = .dropoff) (taking : Bool) :
    Halts w s a s (Action.squash m s taking) := by
  unfold Action.squash
  split
  · exact halts_of_ended rfl
  · exact halts_of_ended rfl
  · exact halts_pause (.handling ha) _

theorem halts_begin (m : MotionSettings) (w : World) (s : Stance) (a : Action) :
    Halts w s a s (a.begin m w s) := by
  cases a with
  | move backward steps =>
    let t : Trek := ⟨backward, (max 1 steps).toNat, 0⟩
    have hn : t.moved + t.left ≤ (max 1 steps).toNat := Nat.le_of_eq (Nat.zero_add _)
    exact halts_stride (show t.backward = backward from rfl) hn (w.strode_zero _ s)
  | turn left => exact halts_glide .turning
  | pickup =>
    simp only [Action.begin]
    split
    · exact halts_of_ended rfl
    · split
      · exact halts_squash (.inl rfl) _
      · exact halts_of_ended rfl
  | dropoff =>
    simp only [Action.begin]
    split
    · split
      · exact halts_squash (.inr rfl) _
      · exact halts_of_ended rfl
    · exact halts_of_ended rfl

theorem halts_resume (m : MotionSettings) (h : Midway w s a t b) :
    Halts w s a t (Action.resume m w t b) := by
  cases h with
  | @moving backward steps origin t target k trek hb hn ht hu =>
    simp only [Action.resume]
    split
    · exact halts_after (Effect.completions_publish _ []) (halts_pause (.moving hb hn ht hu) _)
    · have hl : trek.moved + 1 + trek.left ≤ (max 1 steps).toNat := by omega
      have hs : Midway w s (.move backward steps) target
          (.settling { trek with moved := trek.moved+1 }) := .settling hb hl hu
      exact halts_after (by simp) (halts_pause hs _)
  | settling hb hn ht => exact halts_stride hb hn ht
  | turning =>
    simp only [Action.resume]
    split
    · exact halts_after (Effect.completions_publish _ []) (halts_pause .turning _)
    · exact halts_of_ended rfl
  | handling ha =>
    simp only [Action.resume]
    split
    · exact halts_after (Effect.completions_publish _ []) (halts_pause (.handling ha) _)
    · exact halts_of_ended rfl

end Stretch

namespace Engine

/-- The answer and all effects from a stretch on, when nothing cancels the action. -/
def conclude (e : Engine) (x : Stretch) : Except Fault Answer × List Effect :=
  Action.conclude e.settings e.world e.committed x

theorem conclude_pause (e : Engine) {x : Stretch} {seconds : Number} {b : Activity}
    (h : x.next = .pause seconds b) (hp : seconds.checkPause = .ok ()) :
    e.conclude x =
      (((e.applyAll x.effects).conclude ((e.applyAll x.effects).resume b)).1,
        x.effects ++ ((e.applyAll x.effects).conclude ((e.applyAll x.effects).resume b)).2) := by
  simp [conclude, resume, Action.conclude_pause h hp]

end Engine

namespace Session

/-- What a cancelled action leaves behind. -/
structure Withdrawn (p : Performance) (a : Action) (q : Performance) (f : Fault) : Prop where
  token : q.watch.token.check = .error f
  shown : q.engine.shown = .still q.engine.committed
  completed : q.engine.completed = p.engine.completed
  completions : q.completions = p.completions
  partway : a.Partway p.engine.world p.engine.committed q.engine.committed

/-- An action that has come from `p` to `q` by some effects, and goes on with a stretch. -/
structure Sofar (p : Performance) (a : Action) (es : List Effect) (q : Performance)
    (x : Stretch) : Prop where
  alike : (p.applyAll es).Alike q
  completions : Effect.completions es = 0
  whole : p.engine.conclude (p.engine.begin a) =
    ((q.engine.conclude x).1, es ++ (q.engine.conclude x).2)

/-- How an action that began at `p` can stand: it has ended as a whole, it has been withdrawn, or it
pauses midway. -/
inductive Told (p : Performance) (a : Action) : Session → Prop
  | whole {q : Performance} {r : Except Fault Answer × List Effect}
    (hr : p.engine.conclude (p.engine.begin a) = r) (hq : (p.applyAll r.2).Alike q) :
    Told p a ⟨q, none, some r.1⟩
  | withdrawn {q : Performance} {f : Fault} (hq : Withdrawn p a q f) :
    Told p a ⟨q, none, some (.error f)⟩
  | paused {q : Performance} {es : List Effect} {b : Activity}
    (hq : Sofar p a es q (q.engine.resume b))
    (hm : Midway p.engine.world p.engine.committed a q.engine.committed b)
    (hb : q.engine.Poised b) : Told p a ⟨q, some b, none⟩

variable {p q : Performance} {a : Action} {b : Activity} {es : List Effect} {x : Stretch}

theorem completed_of_alike (h : (p.applyAll es).Alike q) (hz : Effect.completions es = 0) :
    q.engine.completed = p.engine.completed ∧ q.completions = p.completions := by
  have he := congrArg Engine.completed h.engine
  have hc := h.completions
  rw [Performance.engine_applyAll, Engine.completed_applyAll, hz] at he
  rw [Performance.completions_applyAll, hz] at hc
  exact ⟨he.symm, hc.symm⟩

/-- A cancelled pause withdraws the unit move, turn or squash that it is in. -/
theorem told_interrupt (h : (p.applyAll es).Alike q) (hz : Effect.completions es = 0)
    (hm : Midway p.engine.world p.engine.committed a q.engine.committed b)
    (hb : q.engine.Poised b) {f : Fault} (hf : q.watch.token.check = .error f) :
    Told p a (interrupt q b f) := by
  obtain ⟨hcompleted, hcompletions⟩ := completed_of_alike h hz
  cases hs : b.showsCommitted with
  | true =>
    let d := q.apply (.publish (.still q.engine.committed))
    have hd : interrupt q b f = ⟨d, none, some (.error f)⟩ := by simp [interrupt, hs, d]
    have he : d.engine = { q.engine with shown := .still q.engine.committed } :=
      Performance.engine_apply q _
    rw [hd]
    refine .withdrawn ⟨?_, ?_, ?_, ?_, ?_⟩
    · exact Performance.token_publish hf _
    · rw [he]
    · rw [he]
      exact hcompleted
    · exact (Performance.completions_publish q _).trans hcompletions
    · rw [he]
      exact hm.partway
  | false =>
    have hd : interrupt q b f = ⟨q, none, some (.error f)⟩ := by simp [interrupt, hs]
    rw [hd]
    exact .withdrawn ⟨hf, hb.shown hs, hcompleted, hcompletions, hm.partway⟩

theorem told_proceed (h : Sofar p a es q x)
    (hx : x.Halts p.engine.world p.engine.committed a q.engine.committed)
    (hp : x.Poises q.engine) : Told p a (proceed q x) := by
  have hd : (p.applyAll (es ++ x.effects)).Alike (q.applyAll x.effects) := by
    rw [Performance.applyAll_append]
    exact h.alike.applyAll x.effects
  have he := Performance.engine_applyAll q x.effects
  have hw := h.whole
  unfold proceed
  cases hn : x.next with
  | done answer =>
    rw [Engine.conclude.eq_def q.engine, Action.conclude_done hn] at hw
    exact .whole hw hd
  | failed f =>
    rw [Engine.conclude.eq_def q.engine, Action.conclude_failed hn] at hw
    exact .whole hw hd
  | pause seconds b =>
    have hz : Effect.completions (es ++ x.effects) = 0 := by
      have hes := h.completions
      have hxs := hx.completions seconds b hn
      rw [Effect.completions_append]
      omega
    have hm : Midway p.engine.world p.engine.committed a (q.applyAll x.effects).engine.committed
        b := by
      rw [he, Engine.committed_applyAll]
      exact hx.midway seconds b hn
    have hb : (q.applyAll x.effects).engine.Poised b := by
      rw [he]
      exact hp.poised seconds b hn
    dsimp only
    cases hc : (q.applyAll x.effects).watch.token.check with
    | error f =>
      rw [suspend_cancelled hc]
      exact told_interrupt hd hz hm hb hc
    | ok u =>
      cases hk : seconds.checkPause with
      | error f =>
        rw [suspend_untimed hc hk]
        rw [Engine.conclude.eq_def q.engine, Action.conclude_stuck hn hk] at hw
        exact .whole hw hd
      | ok v =>
        rw [suspend_ok hc hk]
        rw [Engine.conclude_pause _ hn hk, ← he] at hw
        refine .paused ⟨hd, hz, ?_⟩ hm hb
        rw [hw, List.append_assoc]

theorem sofar_begin (p : Performance) (a : Action) : Sofar p a [] p (p.engine.begin a) where
  alike := .refl p
  completions := rfl
  whole := by simp

theorem Sofar.withWatch (h : Sofar p a es q (q.engine.resume b)) (v : Watch) :
    Sofar p a es { q with watch := v } (q.engine.resume b) :=
  ⟨h.alike.withWatch v, h.completions, h.whole⟩

theorem told_begin (p : Performance) (a : Action) : Told p a (begin p a) :=
  told_proceed (sofar_begin p a) (Stretch.halts_begin _ _ _ a) (Stretch.poises_begin _ a)

theorem told_wake (h : Sofar p a es q (q.engine.resume b))
    (hm : Midway p.engine.world p.engine.committed a q.engine.committed b)
    (hb : q.engine.Poised b) : Told p a (wake q b) := by
  unfold wake
  cases hc : q.watch.token.check with
  | error f => exact told_interrupt h.alike h.completions hm hb hc
  | ok u =>
    have hw : q.engine.world = p.engine.world := by
      rw [← h.alike.engine, Performance.engine_applyAll, Engine.world_applyAll]
    refine told_proceed h ?_ (Stretch.poises_resume _ b)
    unfold Engine.resume
    rw [hw]
    exact Stretch.halts_resume _ hm

theorem told_happen {s : Session} (h : Told p a s) {x : Happening} (ho : x.IsOwn) :
    Told p a (s.happen x) := by
  cases x with
  | cancel reason =>
    cases h with
    | whole hr hq => exact .whole hr (hq.withWatch _)
    | withdrawn hq =>
      exact .withdrawn ⟨Token.check_cancel hq.token reason, hq.shown, hq.completed,
        hq.completions, hq.partway⟩
    | paused hq hm hb => exact .paused (hq.withWatch _) hm hb
  | wake v =>
    cases h with
    | whole hr hq => exact .whole hr hq
    | withdrawn hq => exact .withdrawn hq
    | @paused q es b hq hm hb =>
      exact told_wake (q := q.atTime v) (hq.withWatch { v with token := q.watch.token }) hm hb
  | begin a w stopAt => cases ho
  | reset pose => cases ho
  | subscribe observer => cases ho
  | unsubscribe observer => cases ho

theorem told_after {s : Session} (h : Told p a s) {hs : List Happening}
    (ho : ∀ x ∈ hs, x.IsOwn) : Told p a (s.after hs) := by
  induction hs generalizing s with
  | nil => exact h
  | cons x hs ih =>
    have hx := told_happen h (ho x (by simp))
    exact ih hx (fun y hy => ho y (by simp [hy]))

/-- An action has ended exactly when it has a result. -/
theorem Told.ended {s : Session} (h : Told p a s) : s.doing = none ↔ s.result.isSome := by
  cases h with
  | whole hr hq => simp
  | withdrawn hq => simp
  | paused hq hm hb => simp

/-- A result is that of the whole action, or the action has been withdrawn. -/
theorem Told.of_result {s : Session} (h : Told p a s) {r : Except Fault Answer}
    (hr : s.result = some r) :
    ((p.engine.conclude (p.engine.begin a)).1 = r ∧
      (p.applyAll (p.engine.conclude (p.engine.begin a)).2).Alike s.performance) ∨
    ∃ f, r = .error f ∧ Withdrawn p a s.performance f := by
  cases h with
  | whole hw hq =>
    cases hr
    rw [hw]
    exact .inl ⟨rfl, hq⟩
  | withdrawn hq =>
    cases hr
    exact .inr ⟨_, rfl, hq⟩
  | paused hq hm hb => cases hr

theorem Told.poised {s : Session} (h : Told p a s) (hd : s.doing = some b) :
    s.engine.Poised b := by
  cases h with
  | whole hr hq => cases hd
  | withdrawn hq => cases hd
  | paused hq hm hb =>
    cases hd
    exact hb

/-- A bound on the pauses to come, the one that the action is in included. -/
def left (s : Session) : Nat :=
  match s.doing with
  | none => 0
  | some b => Action.rest s.engine.settings b + 1

theorem left_eq_zero {s : Session} (h : s.left = 0) : s.doing = none := by
  unfold left at h
  cases hd : s.doing with
  | none => rfl
  | some b =>
    rw [hd] at h
    cases h

theorem left_suspend (q : Performance) (seconds : Number) (b : Activity) :
    (suspend q seconds b).left ≤ Action.rest q.engine.settings b + 1 := by
  unfold suspend
  cases q.watch.token.check with
  | error f => exact Nat.zero_le _
  | ok u =>
    dsimp only
    cases seconds.checkPause with
    | error f => exact Nat.zero_le _
    | ok v => exact Nat.le_refl _

theorem left_proceed (q : Performance) (x : Stretch) :
    (proceed q x).left ≤ x.pauses q.engine.settings := by
  unfold proceed
  cases hn : x.next with
  | done answer => exact Nat.zero_le _
  | failed f => exact Nat.zero_le _
  | pause seconds b =>
    have hl := left_suspend (q.applyAll x.effects) seconds b
    rw [Performance.settings_applyAll] at hl
    simpa only [Stretch.pauses, hn] using hl

/-- Every end of a pause leaves less to do. -/
theorem left_wake (q : Performance) (b : Activity) :
    (wake q b).left ≤ Action.rest q.engine.settings b := by
  unfold wake
  cases q.watch.token.check with
  | error f => exact Nat.zero_le _
  | ok u =>
    let x : Stretch := ⟨[], .pause (.int 0) b⟩
    have hlt : (q.engine.resume b).pauses q.engine.settings < x.pauses q.engine.settings :=
      Stretch.pauses_resume_lt (x := x) rfl _
    have hx : x.pauses q.engine.settings = Action.rest q.engine.settings b + 1 := rfl
    have hle := left_proceed q (q.engine.resume b)
    dsimp only
    omega

theorem left_happen (s : Session) {x : Happening} (ho : x.IsOwn) :
    (s.happen x).left ≤ s.left - (if x.isWake then 1 else 0) := by
  cases x with
  | cancel reason => exact Nat.le_refl _
  | wake v =>
    simp only [happen, left, Happening.isWake, if_true]
    cases hd : s.doing with
    | none =>
      dsimp only
      rw [hd]
    | some b => exact left_wake (s.performance.atTime v) b
  | begin a w stopAt => cases ho
  | reset pose => cases ho
  | subscribe observer => cases ho
  | unsubscribe observer => cases ho

theorem left_after (s : Session) {hs : List Happening} (ho : ∀ x ∈ hs, x.IsOwn) :
    (s.after hs).left ≤ s.left - hs.countP Happening.isWake := by
  induction hs generalizing s with
  | nil => exact Nat.le_refl _
  | cons x hs ih =>
    have hx := left_happen s (ho x (by simp))
    have hi := ih (s.happen x) (fun y hy => ho y (by simp [hy]))
    rw [List.countP_cons]
    rw [after_cons]
    omega

/-- An action that is cancelled in a pause fails when the pause ends; all that is still shown is the
stance that counts. -/
theorem cancelled_wake {s : Session} {b : Activity} (hd : s.doing = some b)
    (hb : s.engine.Poised b) (reason : Json.Value) (v : Watch) :
    let t := s.after [.cancel reason, .wake v]
    let seen := t.performance.sightings
    (∃ text, t.result = some (.error (.cancelled text))) ∧
      t.engine = { s.engine with shown := .still s.engine.committed } ∧
      t.performance.completions = s.performance.completions ∧
      (seen = s.performance.sightings ∨
        seen = s.performance.sightings ++
          List.replicate s.engine.observers.length (v.now, .still s.engine.committed)) := by
  let q := (s.performance.cancel reason).atTime v
  obtain ⟨text, hf⟩ : ∃ text, q.watch.token.check = .error (.cancelled text) :=
    Token.check_of_cancelled (Token.isCancelled_cancel _ _)
  have ht : s.after [.cancel reason, .wake v] = interrupt q b (.cancelled text) := by
    rw [← wake_cancelled hf b]
    simp only [after_cons, after_nil, happen, hd]
    rfl
  have he : q.engine = s.engine := rfl
  have hq := engine_interrupt q b (.cancelled text)
  simp only [ht]
  cases hs : b.showsCommitted with
  | true =>
    have hi : (interrupt q b (.cancelled text)).performance =
        q.apply (.publish (.still q.engine.committed)) := by simp [interrupt, hs]
    rw [hs, if_pos rfl] at hq
    rw [hi]
    exact ⟨⟨text, rfl⟩, hq, Performance.completions_publish q _,
      .inr (Performance.sightings_publish q _)⟩
  | false =>
    have hi : (interrupt q b (.cancelled text)).performance = q := by simp [interrupt, hs]
    have hshown : { s.engine with shown := .still s.engine.committed } = s.engine := by
      rw [← hb.shown hs]
    rw [hs, if_neg (by simp), he] at hq
    rw [hi, hshown]
    exact ⟨⟨text, rfl⟩, hq, rfl, .inl rfl⟩

/-- An action on a clock of its own that nothing disturbs. -/
def undisturbed (p : Performance) (a : Action) : Except Fault Answer × Performance :=
  ({ p with watch := .start, stopAt := none } : Performance).perform a

/-- Undisturbed, an action with pauses that can all be begun comes to a whole. -/
theorem undisturbed_whole (hm : p.engine.settings.IsPaced) (a : Action) :
    ∃ answer, (undisturbed p a).1 = .ok answer ∧
      (p.engine.conclude (p.engine.begin a)).1 = .ok answer ∧
      (p.applyAll (p.engine.conclude (p.engine.begin a)).2).Alike (undisturbed p a).2 := by
  let c : Performance := { p with watch := .start, stopAt := none }
  have hc : c.IsClear := ⟨⟨rfl, rfl, rfl⟩, rfl⟩
  have hpc : p.Alike c := ⟨rfl, rfl, rfl, rfl⟩
  have hu : undisturbed p a = c.perform a := rfl
  obtain ⟨q, hq, _, _⟩ := Performance.perform_ok hc hm a
  obtain ⟨hs, hown, hrun⟩ := perform_run c a
  have ht := told_after (told_begin c a) hown
  rw [hrun] at ht
  rw [hu]
  -- a session with an answer has not been withdrawn
  rcases ht.of_result rfl with ⟨hr, ha⟩ | ⟨f, hf, _⟩
  · rw [hq] at hr
    exact ⟨_, congrArg Prod.fst hq, hr, (hpc.applyAll _).trans ha⟩
  · rw [hq] at hf
    cases hf

/-- Whatever is cancelled, and in whatever pause or observer call: an action ends after so many
pauses, as a whole or withdrawn; one that is cancelled in a pause fails when the pause ends, and
nothing is shown any more but the stance that counts. -/
theorem whole_or_withdrawn (hm : p.engine.settings.IsPaced) (a : Action) {hs : List Happening}
    (ho : ∀ x ∈ hs, x.IsOwn) :
    let s := (begin p a).after hs
    let q := s.performance
    let u := undisturbed p a
    (∃ answer, u.1 = .ok answer) ∧
    (s.doing = none ↔ s.result.isSome) ∧
    ((p.engine.begin a).pauses p.engine.settings ≤ hs.countP Happening.isWake → s.doing = none) ∧
    (∀ r, s.result = some r → r = u.1 ∧ u.2.Alike q ∨
      ∃ text, r = .error (.cancelled text) ∧ Withdrawn p a q (.cancelled text)) ∧
    ∀ b, s.doing = some b → ∀ reason v,
      let t := s.after [.cancel reason, .wake v]
      let seen := t.performance.sightings
      (∃ text, t.result = some (.error (.cancelled text))) ∧ t.doing = none ∧
        t.engine = { q.engine with shown := .still q.engine.committed } ∧
        t.performance.completions = q.completions ∧
        (seen = q.sightings ∨ seen = q.sightings ++
          List.replicate q.engine.observers.length (v.now, .still q.engine.committed)) := by
  intro s q u
  obtain ⟨answer, hu, hw, hq⟩ := undisturbed_whole hm a
  have ht : Told p a s := told_after (told_begin p a) ho
  refine ⟨⟨answer, hu⟩, ht.ended, ?_, ?_, ?_⟩
  · intro hle
    have hl : s.left ≤ (begin p a).left - hs.countP Happening.isWake := left_after _ ho
    have hb := left_proceed p (p.engine.begin a)
    change (begin p a).left ≤ _ at hb
    exact left_eq_zero (by omega)
  · intro r hr
    rcases ht.of_result hr with ⟨hc, ha⟩ | ⟨f, rfl, hf⟩
    · exact .inl ⟨by rw [← hc, hw, hu], hq.symm.trans ha⟩
    · obtain ⟨text, rfl⟩ := Token.check_error hf.token
      exact .inr ⟨text, rfl, hf⟩
  · intro b hd reason v
    obtain ⟨hr, he, hc, hseen⟩ := cancelled_wake hd (ht.poised hd) reason v
    exact ⟨hr, doing_cancelled s reason v, he, hc, hseen⟩

/-- A step that is cancelled in its first pause. -/
theorem whole_or_withdrawn_corridor :
    let s := (begin (.start .corridor) (.move false 1)).after
      [.cancel (.text "stop"), .wake .start]
    ∃ r, s.result = some r ∧ (r = (undisturbed (.start .corridor) (.move false 1)).1 ∨
      ∃ text, Withdrawn (.start .corridor) (.move false 1) s.performance (.cancelled text)) := by
  intro s
  have ho : ∀ x ∈ [Happening.cancel (.text "stop"), .wake .start], x.IsOwn := by
    intro x hx
    simp only [List.mem_cons, List.not_mem_nil, or_false] at hx
    rcases hx with rfl | rfl
    · trivial
    · trivial
  have hm : MotionSettings.standard.IsPaced :=
    MotionSettings.isPaced_of_floats (n := 20) (k := 5) (by decide) (by decide) (by decide) rfl rfl
      rfl
  obtain ⟨_, hended, _, hresult, _⟩ :=
    whole_or_withdrawn (p := .start .corridor) hm (.move false 1) ho
  have hd : s.doing = none := doing_cancelled _ _ _
  obtain ⟨r, hr⟩ := Option.isSome_iff_exists.mp (hended.mp hd)
  refine ⟨r, hr, ?_⟩
  rcases hresult r hr with ⟨hu, _⟩ | ⟨text, _, hw⟩
  · exact .inl hu
  · exact .inr ⟨text, hw⟩

/-- A step with more frames than binary64 numbers reach to fails before it looks at its token, which
is cancelled. -/
theorem begin_untimed {n : Int} (hn : Number.toBinary64 (.int n) = .error .outOfRange) :
    ∃ e, Engine.make Engine.corridor.world none { MotionSettings.instant with frames := .int n } =
        .ok e ∧
      (begin { Performance.start e with watch := Watch.start.cancel (.text "stop") }
        (.move false 1)).result = some (.error (.number .outOfRange)) := by
  let m : MotionSettings := { MotionSettings.instant with frames := .int n }
  have hi : m.frameInterval = .error .outOfRange :=
    MotionSettings.frameInterval_large hn rfl rfl
  refine ⟨{ Engine.corridor with settings := m }, rfl, ?_⟩
  have hb : Action.begin m Engine.corridor.world Engine.corridor.committed (.move false 1) =
      ⟨[], .failed (.number .outOfRange)⟩ := Action.begin_stuck rfl hi (by rfl)
  unfold begin Engine.begin
  dsimp only [Performance.start]
  rw [hb]
  rfl

theorem whole_or_withdrawn_vast :
    ∃ e, Engine.make Engine.corridor.world none
        { MotionSettings.instant with frames := .int (10^309) } = .ok e ∧
      (begin { Performance.start e with watch := Watch.start.cancel (.text "stop") }
        (.move false 1)).result = some (.error (.number .outOfRange)) :=
  begin_untimed (Number.toBinary64_of_infinite (by decide +kernel))

end Session

end Courier
