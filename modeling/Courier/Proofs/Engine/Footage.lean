import Courier.Proofs.Engine.Withdrawal
import Courier.Proofs.Pose.Glide

namespace Courier

open Courier.Frame

/-- The frames of unit moves that are carried out one after another, each up to its commit. -/
inductive Trail (w : World) (low : ℚ) (sign : Int) (s : Stance) : List Frame → Stance → Prop
  | start : Trail w low sign s [] s
  | step {fs way : List Frame} {t : Stance} (h : Trail w low sign s fs t)
    (he : w.canEnter (t.ahead sign)) (hw : Strides low t { t with cell := t.ahead sign } way) :
    Trail w low sign s (fs ++ way ++ [.still { t with cell := t.ahead sign }])
      { t with cell := t.ahead sign }

/-- What an action from a stance may show, and the stance that counts then. The last unit move may
be under way or rolled back, and so may be a turn. -/
inductive Footage (w : World) (low : ℚ) (n : Nat) (s : Stance) :
    Action → List Frame → Stance → Prop
  | moved {backward : Bool} {steps : Int} {fs : List Frame} {t : Stance}
    (h : Trail w low (if backward then -1 else 1) s fs t) :
    Footage w low n s (.move backward steps) fs t
  | moving {backward : Bool} {steps : Int} {fs way : List Frame} {t u : Stance}
    (h : Trail w low (if backward then -1 else 1) s fs t)
    (hu : u = { t with cell := t.ahead (if backward then -1 else 1) }) (he : w.canEnter u.cell)
    (hw : Strides low t u way) : Footage w low n s (.move backward steps) (fs ++ way) t
  | movedBack {backward : Bool} {steps : Int} {fs way : List Frame} {t u : Stance}
    (h : Trail w low (if backward then -1 else 1) s fs t)
    (hu : u = { t with cell := t.ahead (if backward then -1 else 1) }) (he : w.canEnter u.cell)
    (hw : Strides low t u way) :
    Footage w low n s (.move backward steps) (fs ++ way ++ [.still t]) t
  | turning {left : Bool} {way : List Frame} {t : Stance}
    (ht : t = { s with heading := s.heading.turned (if left then -1 else 1) })
    (hw : Turns low n s t way) : Footage w low n s (.turn left) way s
  | turnedBack {left : Bool} {way : List Frame} {t : Stance}
    (ht : t = { s with heading := s.heading.turned (if left then -1 else 1) })
    (hw : Turns low n s t way) : Footage w low n s (.turn left) (way ++ [.still s]) s
  | turned {left : Bool} {way : List Frame} {t : Stance}
    (ht : t = { s with heading := s.heading.turned (if left then -1 else 1) })
    (hw : Turns low n s t way) : Footage w low n s (.turn left) (way ++ [.still t]) t
  | handling {a : Action} {fs : List Frame} {t : Stance} (ha : a = .pickup ∨ a = .dropoff)
    (hf : ∀ f ∈ fs, IsAt low s f) (hc : t.cell = s.cell) (hh : t.heading = s.heading) :
    Footage w low n s a fs t

/-- What an action from a stance has shown when it pauses in an activity. -/
inductive Underway (w : World) (low : ℚ) (n : Nat) (s : Stance) :
    Action → List Frame → Stance → Activity → Prop
  | moving {backward : Bool} {steps : Int} {fs : List Frame} {t u : Stance} {k : Nat} {trek : Trek}
    (hb : trek.backward = backward) (h : Trail w low trek.sign s fs t)
    (hu : u = { t with cell := t.ahead trek.sign }) (he : w.canEnter u.cell) (hk : k < n) :
    Underway w low n s (.move backward steps) (fs ++ glides t u k n) t
      (.gliding t u (k+1) (some trek))
  | settling {backward : Bool} {steps : Int} {fs : List Frame} {t : Stance} {trek : Trek}
    (hb : trek.backward = backward) (h : Trail w low trek.sign s fs t) :
    Underway w low n s (.move backward steps) fs t (.settling trek)
  | turning {left : Bool} {t : Stance} {k : Nat}
    (ht : t = { s with heading := s.heading.turned (if left then -1 else 1) }) (hk : k < n) :
    Underway w low n s (.turn left) (glides s t k n) s (.gliding s t (k+1) none)
  | handling {a : Action} {fs : List Frame} {k : Nat} {taking : Bool}
    (ha : a = .pickup ∨ a = .dropoff) (hf : ∀ f ∈ fs, IsAt low s f) :
    Underway w low n s a fs s (.squashing s k taking)

section Trails

variable {w : World} {low : ℚ} {n : Nat} {s t : Stance} {a : Action} {b : Activity}
  {fs : List Frame} {sign : Int}

theorem Trail.canEnter (h : Trail w low sign s fs t) (hs : w.canEnter s.cell) :
    w.canEnter t.cell := by
  cases h with
  | start => exact hs
  | step _ he _ => exact he

theorem last_append_still (fs : List Frame) (t : Stance) (f : Frame)
    (hf : (fs ++ [Frame.still t]).getLast? = some f) : f = .still t := by
  rw [List.getLast?_append, List.getLast?_singleton] at hf
  exact (Option.some.inj hf).symm

/-- A trail ends on what it has committed. -/
theorem Trail.last (h : Trail w low sign s fs t) (f : Frame) (hf : fs.getLast? = some f) :
    f = .still t := by
  cases h with
  | start => cases hf
  | step _ _ _ => exact last_append_still _ _ f hf

theorem Underway.footage (h : Underway w low n s a fs t b) : Footage w low n s a fs t := by
  cases h with
  | moving hb h hu he hk =>
    subst hu
    rw [Trek.sign_eq hb] at h he ⊢
    exact .moving h rfl he (strides_glides hk.le)
  | settling hb h =>
    rw [Trek.sign_eq hb] at h
    exact .moved h
  | turning ht hk =>
    subst ht
    exact .turning rfl (turns_glides (sign_cases _) hk.le)
  | handling ha hf => exact .handling ha hf rfl rfl

/-- A cancelled animation goes back to where its unit move, turn or squash began. -/
theorem Underway.rolledBack (h : Underway w low n s a fs t b) :
    Footage w low n s a (fs ++ if b.showsCommitted then [.still t] else []) t := by
  cases h with
  | moving hb h hu he hk =>
    subst hu
    rw [Trek.sign_eq hb] at h he ⊢
    exact .movedBack h rfl he (strides_glides hk.le)
  | settling hb h =>
    rw [Trek.sign_eq hb] at h
    simpa [Activity.showsCommitted] using Footage.moved h
  | turning ht hk =>
    subst ht
    exact .turnedBack rfl (turns_glides (sign_cases _) hk.le)
  | handling ha hf =>
    refine .handling ha ?_ rfl rfl
    intro f hmem
    rcases List.mem_append.mp hmem with hm | hm
    · exact hf f hm
    · rw [Activity.showsCommitted, if_pos rfl, List.mem_singleton] at hm
      rw [hm]
      exact still_isAt _

end Trails

/-- A stretch that goes on with the footage of an action. -/
structure Stretch.Films (w : World) (low : ℚ) (n : Nat) (s : Stance) (a : Action)
    (fs : List Frame) (t : Stance) (x : Stretch) : Prop where
  legal : ∀ f ∈ Effect.frames x.effects, (f.pose low).IsLegal w
  stance : w.canEnter (t.after x.effects).cell
  underway : ∀ seconds b, x.next = .pause seconds b →
    Underway w low n s a (fs ++ Effect.frames x.effects) (t.after x.effects) b
  footage : Footage w low n s a (fs ++ Effect.frames x.effects) (t.after x.effects)
  last : ∀ answer, x.next = .done answer →
    ∀ f, (fs ++ Effect.frames x.effects).getLast? = some f → f = .still (t.after x.effects)

namespace Stretch

variable {m : MotionSettings} {w : World} {low : ℚ} {n : Nat} {s t : Stance} {a : Action}
  {b : Activity} {fs : List Frame} {x : Stretch}

theorem films_failed (hc : w.canEnter t.cell) (h : Footage w low n s a fs t) (f : Fault) :
    Films w low n s a fs t ⟨[], .failed f⟩ where
  legal f hf := by cases hf
  stance := hc
  underway seconds b hn := by cases hn
  footage := by simpa using h
  last answer hn := by cases hn

theorem films_pause (hc : w.canEnter t.cell) (h : Underway w low n s a fs t b)
    (seconds : Except NumberFault Number) : Films w low n s a fs t (.pause seconds b) := by
  cases seconds with
  | error f => exact films_failed hc h.footage _
  | ok n =>
    refine ⟨by simp [pause], hc, ?_, by simpa [pause] using h.footage, ?_⟩
    · intro seconds c hn
      cases hn
      simpa [pause] using h
    · intro answer hn
      cases hn

theorem films_after {es : List Effect} (hl : ∀ f ∈ Effect.frames es, (f.pose low).IsLegal w)
    (h : Films w low n s a (fs ++ Effect.frames es) (t.after es) x) :
    Films w low n s a fs t (.after es x) := by
  obtain ⟨hlegal, hstance, hunderway, hfootage, hlast⟩ := h
  rw [← Stance.after_append] at hstance hunderway hfootage hlast
  rw [List.append_assoc, ← Effect.frames_append] at hunderway hfootage hlast
  refine ⟨?_, hstance, hunderway, hfootage, hlast⟩
  intro f hf
  rw [after, Effect.frames_append, List.mem_append] at hf
  rcases hf with hf | hf
  · exact hl f hf
  · exact hlegal f hf

theorem films_done (hc : w.canEnter t.cell) (h : Footage w low n s a fs t)
    (hl : ∀ f, fs.getLast? = some f → f = .still t) {es : List Effect}
    (hes : Effect.frames es = []) (ht : t.after es = t) (answer : Answer) :
    Films w low n s a fs t ⟨es, .done answer⟩ where
  legal f hf := by
    rw [hes] at hf
    cases hf
  stance := by rwa [ht]
  underway seconds b hn := by cases hn
  footage := by rwa [hes, List.append_nil, ht]
  last answer _ f hf := by
    rw [hes, List.append_nil] at hf
    rw [ht]
    exact hl f hf

theorem films_glide (hm : m.frames = .int n) (hc : w.canEnter t.cell) {u : Stance}
    {trek : Option Trek} (h : Underway w low n s a fs t (.gliding t u 1 trek)) :
    Films w low n s a fs t (Action.glide m t u trek) := by
  unfold Action.glide
  rw [hm]
  exact films_pause hc h _

theorem films_stride (hm : m.frames = .int n) (hn : 0 < n) {trek : Trek} {backward : Bool}
    {steps : Int} (hb : trek.backward = backward) (h : Trail w low trek.sign s fs t)
    (hc : w.canEnter t.cell) :
    Films w low n s (.move backward steps) fs t (Action.stride m w t trek) := by
  have hmoved : Footage w low n s (.move backward steps) fs t := by
    rw [Trek.sign_eq hb] at h
    exact .moved h
  unfold Action.stride
  cases trek.left with
  | zero => exact films_done hc hmoved h.last rfl rfl _
  | succ left =>
    dsimp only
    split
    · next he =>
      refine films_glide hm hc ?_
      have hu : Underway w low n s (.move backward steps) (fs ++ glides t _ 0 n) t
          (.gliding t { t with cell := t.ahead trek.sign } 1 (some { trek with left })) :=
        .moving hb h rfl he hn
      simpa [glides] using hu
    · exact films_done hc hmoved h.last rfl rfl _

theorem films_squash (ha : a = .pickup ∨ a = .dropoff) (hs : w.canEnter s.cell) (taking : Bool) :
    Films w low n s a [] s (Action.squash m s taking) := by
  have h : Underway w low n s a [] s (.squashing s 1 taking) := .handling ha (by simp)
  unfold Action.squash
  split
  · exact films_failed hs h.footage _
  · exact films_failed hs h.footage _
  · exact films_pause hs h _

theorem films_begin (hm : m.frames = .int n) (hn : 0 < n) (hs : w.canEnter s.cell) (a : Action) :
    Films w low n s a [] s (a.begin m w s) := by
  -- a pickup or dropoff that has no effect shows nothing
  have hmissed (ha : a = .pickup ∨ a = .dropoff) {es : List Effect} (hes : Effect.frames es = [])
      (ht : s.after es = s) : Films w low n s a [] s ⟨es, .done (.handled false)⟩ :=
    films_done hs (.handling ha (by simp) rfl rfl) (by simp) hes ht _
  cases a with
  | move backward steps => exact films_stride hm hn rfl .start hs
  | turn left =>
    refine films_glide hm hs ?_
    exact Underway.turning (k := 0) rfl hn
  | pickup =>
    simp only [Action.begin]
    split
    · exact hmissed (.inl rfl) rfl rfl
    · split
      · exact films_squash (.inl rfl) hs _
      · exact hmissed (.inl rfl) rfl rfl
  | dropoff =>
    simp only [Action.begin]
    split
    · split
      · exact films_squash (.inr rfl) hs _
      · exact hmissed (.inr rfl) rfl rfl
    · exact hmissed (.inr rfl) rfl rfl

/-- The next frame of a unit move, or its last one and the commit. -/
theorem films_moving (hm : m.frames = .int n) {trek : Trek} {backward : Bool} {steps : Int}
    {k : Nat} (hb : trek.backward = backward) (h : Trail w low trek.sign s fs t)
    (he : w.canEnter (t.ahead trek.sign)) (hk : k < n) (hc : w.canEnter t.cell) :
    let u : Stance := { t with cell := t.ahead trek.sign }
    Films w low n s (.move backward steps) (fs ++ glides t u k n) t
      (Action.resume m w t (.gliding t u (k+1) (some trek))) := by
  intro u
  obtain ⟨h0, h1⟩ := ratio_range (k := k+1) (n := n) hk
  have hlegal : ((Frame.glide t u (k+1) n).pose low).IsLegal w :=
    glidePose_step_isLegal trek.sign_cases h0 h1 hc he
  simp only [Action.resume, Action.glideLength_eq hm]
  split
  · next hlt =>
    have hnext : Underway w low n s (.move backward steps) (fs ++ glides t u (k+1) n) t
        (.gliding t u (k+1+1) (some trek)) := .moving hb h rfl he hlt
    refine films_after (by simpa using hlegal) (films_pause hc ?_ _)
    simpa [glides_succ] using hnext
  · next hlt =>
    obtain rfl : n = k+1 := by omega
    have hstep : Trail w low trek.sign s (fs ++ glides t u (k+1) (k+1) ++ [.still u]) u :=
      .step h he (strides_glides le_rfl)
    have hnext : Underway w low (k+1) s (.move backward steps)
        (fs ++ glides t u (k+1) (k+1) ++ [.still u]) u
        (.settling { trek with moved := trek.moved+1 }) := .settling hb hstep
    have hu : w.canEnter u.cell := he
    have hrest := films_pause hu hnext m.settlePause
    refine films_after ?_ (by simpa [glides_succ] using hrest)
    simpa using And.intro hlegal (still_isLegal hu)

/-- The next frame of a turn, or its last one and the commit. -/
theorem films_turning (hm : m.frames = .int n) {left : Bool} {k : Nat} (hk : k < n)
    (hs : w.canEnter s.cell) :
    let u : Stance := { s with heading := s.heading.turned (if left then -1 else 1) }
    Films w low n s (.turn left) (glides s u k n) s
      (Action.resume m w s (.gliding s u (k+1) none)) := by
  intro u
  obtain ⟨_, h1⟩ := ratio_range (k := k+1) (n := n) hk
  have hlegal : ((Frame.glide s u (k+1) n).pose low).IsLegal w :=
    glidePose_turn_isLegal (sign_cases left) h1 hs
  simp only [Action.resume, Action.glideLength_eq hm]
  split
  · next hlt =>
    have hnext : Underway w low n s (.turn left) (glides s u (k+1) n) s
        (.gliding s u (k+1+1) none) := .turning rfl hlt
    refine films_after (by simpa using hlegal) (films_pause hs ?_ _)
    simpa [glides_succ] using hnext
  · next hlt =>
    obtain rfl : n = k+1 := by omega
    have hturned : Footage w low (k+1) s (.turn left)
        (glides s u (k+1) (k+1) ++ [.still u]) u :=
      .turned rfl (turns_glides (sign_cases left) le_rfl)
    have hrest : Films w low (k+1) s (.turn left) (glides s u (k+1) (k+1) ++ [.still u]) u
        (.done .turned) :=
      films_done (t := u) hs hturned (last_append_still _ u) rfl rfl _
    refine films_after ?_ (by simpa [glides_succ] using hrest)
    simpa using And.intro hlegal (still_isLegal (s := u) hs)

/-- The next frame of a squash, or its last one and what comes of it. -/
theorem films_squashing (ha : a = .pickup ∨ a = .dropoff) (hf : ∀ f ∈ fs, IsAt low s f)
    (hs : w.canEnter s.cell) (k : Nat) (taking : Bool) :
    Films w low n s a fs s (Action.resume m w s (.squashing s k taking)) := by
  let f := Action.squashFrame s k (Action.squashLength m)
  let u : Stance := { s with cargo := .bool taking }
  have hat : IsAt low s f := squashFrame_isAt s k _
  have hlegal : (f.pose low).IsLegal w := hat.isLegal hs
  simp only [Action.resume]
  split
  · have hnext : Underway w low n s a (fs ++ [f]) s (.squashing s (k+1) taking) := by
      refine .handling ha ?_
      intro g hg
      rcases List.mem_append.mp hg with hg | hg
      · exact hf g hg
      · rw [List.mem_singleton.mp hg]
        exact hat
    exact films_after (by simpa using hlegal) (films_pause hs (by simpa using hnext) _)
  · have hall : ∀ g ∈ fs ++ [f, .still s] ++ [.still u], IsAt low s g := by
      intro g hg
      simp only [List.mem_append, List.mem_cons, List.not_mem_nil, or_false] at hg
      rcases hg with (hg | rfl | rfl) | rfl
      · exact hf g hg
      · exact hat
      · exact still_isAt s
      · exact ⟨rfl, rfl, rfl⟩
    have hdone (es : List Effect) (hes : Effect.frames es = []) (ht : u.after es = u) :
        Films w low n s a (fs ++ [f, .still s] ++ [.still u]) u ⟨es, .done (.handled true)⟩ :=
      films_done (t := u) hs (.handling ha hall rfl rfl) (last_append_still _ u) hes ht _
    have hrest : ∀ g ∈ Effect.frames [.publish f, .publish (.still s), .commit u],
        (g.pose low).IsLegal w := by
      intro g hg
      exact (hall g (by simp at hg ⊢; tauto)).isLegal hs
    cases taking with
    | true =>
      refine films_after (x := ⟨[], .done (.handled true)⟩) hrest ?_
      simpa using hdone [] rfl rfl
    | false =>
      let es : List Effect := [.complete, .remark (.delivered s.cell)]
      refine films_after (x := ⟨es, .done (.handled true)⟩) hrest ?_
      simpa using hdone es rfl rfl

theorem films_resume (hm : m.frames = .int n) (hn : 0 < n) (hs : w.canEnter s.cell)
    (h : Underway w low n s a fs t b) (hc : w.canEnter t.cell) :
    Films w low n s a fs t (Action.resume m w t b) := by
  cases h with
  | moving hb h hu he hk =>
    subst hu
    exact films_moving hm hb h he hk hc
  | settling hb h => exact films_stride hm hn hb h hc
  | turning ht hk =>
    subst ht
    exact films_turning hm hk hs
  | handling ha hf => exact films_squashing ha hf hs _ _

end Stretch

namespace Performance

theorem frames_apply (p : Performance) (e : Effect) :
    (p.apply e).sightings.map (·.2) = p.sightings.map (·.2) ++
      (Effect.frames [e]).flatMap (List.replicate p.engine.observers.length) := by
  cases e with
  | publish f => simp [sightings_publish]
  | commit s =>
    have hs : (p.apply (.commit s)).sightings =
        p.sightings ++ List.replicate p.engine.observers.length (p.watch.now, .still s) :=
      sightings_foldl_sight { p with engine := p.engine.apply (.commit s) } (.still s) _
    simp [hs]
  | complete => simp [apply, Effect.frames, Engine.frameOf?]
  | remark r => simp [apply, Effect.frames, Engine.frameOf?]

theorem observers_apply (p : Performance) (e : Effect) :
    (p.apply e).engine.observers = p.engine.observers := by
  rw [engine_apply]
  cases e <;> rfl

/-- Every observer sees every frame once, in order. -/
theorem frames_applyAll (p : Performance) (es : List Effect) :
    (p.applyAll es).sightings.map (·.2) = p.sightings.map (·.2) ++
      (Effect.frames es).flatMap (List.replicate p.engine.observers.length) := by
  induction es generalizing p with
  | nil => simp [applyAll]
  | cons e es ih =>
    have hs : Effect.frames (e :: es) = Effect.frames [e] ++ Effect.frames es :=
      Effect.frames_append [e] es
    refine (ih (p.apply e)).trans ?_
    rw [frames_apply, observers_apply, hs, List.flatMap_append, List.append_assoc]

theorem observers_applyAll (p : Performance) (es : List Effect) :
    (p.applyAll es).engine.observers = p.engine.observers := by
  induction es generalizing p with
  | nil => rfl
  | cons e es ih => exact (ih (p.apply e)).trans (observers_apply p e)

end Performance

namespace Session

variable {low : ℚ} {n : Nat} {p q : Performance} {a : Action} {b : Activity} {fs : List Frame}
  {x : Stretch}

/-- What has been seen since an action began, all of it legal. -/
structure Seen (low : ℚ) (p : Performance) (fs : List Frame) (q : Performance) : Prop where
  frames : q.sightings.map (·.2) = fs.flatMap (List.replicate p.engine.observers.length)
  observers : q.engine.observers = p.engine.observers
  world : q.engine.world = p.engine.world
  settings : q.engine.settings = p.engine.settings
  legal : ∀ f ∈ fs, (f.pose low).IsLegal p.engine.world
  stance : p.engine.world.canEnter q.engine.committed.cell

/-- How an action that began at `p` stands, with its footage. -/
inductive Filmed (low : ℚ) (n : Nat) (p : Performance) (a : Action) : Session → Prop
  | paused {q : Performance} {fs : List Frame} {b : Activity} (hq : Seen low p fs q)
    (hb : Underway p.engine.world low n p.engine.committed a fs q.engine.committed b) :
    Filmed low n p a ⟨q, some b, none⟩
  | ended {q : Performance} {fs : List Frame} {r : Except Fault Answer} (hq : Seen low p fs q)
    (hf : Footage p.engine.world low n p.engine.committed a fs q.engine.committed)
    (hl : ∀ answer, r = .ok answer →
      ∀ f, fs.getLast? = some f → f = .still q.engine.committed) :
    Filmed low n p a ⟨q, none, some r⟩

theorem Seen.withWatch (h : Seen low p fs q) (w : Watch) : Seen low p fs { q with watch := w } :=
  ⟨h.frames, h.observers, h.world, h.settings, h.legal, h.stance⟩

theorem Seen.applyAll (h : Seen low p fs q) {es : List Effect}
    (hl : ∀ f ∈ Effect.frames es, (f.pose low).IsLegal p.engine.world)
    (hc : p.engine.world.canEnter (q.engine.committed.after es).cell) :
    Seen low p (fs ++ Effect.frames es) (q.applyAll es) where
  frames := by
    rw [Performance.frames_applyAll, h.frames, h.observers, List.flatMap_append]
  observers := by rw [Performance.observers_applyAll, h.observers]
  world := by rw [Performance.engine_applyAll, Engine.world_applyAll, h.world]
  settings := by rw [Performance.settings_applyAll, h.settings]
  legal f hf := by
    rcases List.mem_append.mp hf with hf | hf
    · exact h.legal f hf
    · exact hl f hf
  stance := by rwa [Performance.engine_applyAll, Engine.committed_applyAll]

theorem filmed_interrupt (hq : Seen low p fs q)
    (hb : Underway p.engine.world low n p.engine.committed a fs q.engine.committed b)
    (f : Fault) : Filmed low n p a (interrupt q b f) := by
  have hback := hb.rolledBack
  cases hs : b.showsCommitted with
  | true =>
    let es : List Effect := [.publish (.still q.engine.committed)]
    have hi : interrupt q b f = ⟨q.applyAll es, none, some (.error f)⟩ := by
      simp [interrupt, hs, es, Performance.applyAll]
    have hlegal : ((Frame.still q.engine.committed).pose low).IsLegal p.engine.world :=
      still_isLegal hq.stance
    have hseen : Seen low p (fs ++ Effect.frames es) (q.applyAll es) :=
      hq.applyAll (by simpa [es] using hlegal) hq.stance
    have hc : (q.applyAll es).engine.committed = q.engine.committed := by
      rw [Performance.engine_applyAll, Engine.committed_applyAll]
      rfl
    rw [hi]
    refine .ended hseen ?_ (by simp)
    rw [hc]
    simpa [hs, es] using hback
  | false =>
    have hi : interrupt q b f = ⟨q, none, some (.error f)⟩ := by simp [interrupt, hs]
    rw [hi]
    exact .ended hq (by simpa [hs] using hback) (by simp)

theorem filmed_proceed (hq : Seen low p fs q)
    (hx : x.Films p.engine.world low n p.engine.committed a fs q.engine.committed) :
    Filmed low n p a (proceed q x) := by
  have hseen := hq.applyAll hx.legal hx.stance
  have hc : (q.applyAll x.effects).engine.committed = q.engine.committed.after x.effects := by
    rw [Performance.engine_applyAll, Engine.committed_applyAll]
  have hfootage := hx.footage
  rw [← hc] at hfootage
  unfold proceed
  cases hn : x.next with
  | done answer =>
    refine .ended hseen hfootage ?_
    intro _ _ f hf
    rw [hc]
    exact hx.last answer hn f hf
  | failed f => exact .ended hseen hfootage (by simp)
  | pause seconds b =>
    have hb := hx.underway seconds b hn
    rw [← hc] at hb
    dsimp only
    unfold suspend
    cases (q.applyAll x.effects).watch.token.check with
    | error f => exact filmed_interrupt hseen hb f
    | ok u =>
      dsimp only
      cases seconds.checkPause with
      | error f => exact .ended hseen hfootage (by simp)
      | ok v => exact .paused hseen hb

theorem filmed_begin (hn : p.engine.settings.frames = .int n) (hpos : 0 < n)
    (hc : p.engine.world.canEnter p.engine.committed.cell) (hs : p.sightings = []) (a : Action) :
    Filmed low n p a (begin p a) := by
  have hseen : Seen low p [] p := ⟨by simp [hs], rfl, rfl, rfl, by simp, hc⟩
  exact filmed_proceed hseen (Stretch.films_begin hn hpos hc a)

theorem filmed_wake (hn : p.engine.settings.frames = .int n) (hpos : 0 < n)
    (hc : p.engine.world.canEnter p.engine.committed.cell) (hq : Seen low p fs q)
    (hb : Underway p.engine.world low n p.engine.committed a fs q.engine.committed b) :
    Filmed low n p a (wake q b) := by
  unfold wake
  cases q.watch.token.check with
  | error f => exact filmed_interrupt hq hb f
  | ok u =>
    refine filmed_proceed hq ?_
    unfold Engine.resume
    rw [hq.settings, hq.world]
    exact Stretch.films_resume hn hpos hc hb hq.stance

theorem filmed_happen (hn : p.engine.settings.frames = .int n) (hpos : 0 < n)
    (hc : p.engine.world.canEnter p.engine.committed.cell) {s : Session} (h : Filmed low n p a s)
    {y : Happening} (ho : y.IsOwn) : Filmed low n p a (s.happen y) := by
  cases y with
  | cancel reason =>
    cases h with
    | paused hq hb => exact .paused (hq.withWatch _) hb
    | ended hq hf hl => exact .ended (hq.withWatch _) hf hl
  | wake v =>
    cases h with
    | @paused q fs b hq hb =>
      exact filmed_wake (q := q.atTime v) hn hpos hc
        (hq.withWatch { v with token := q.watch.token }) hb
    | ended hq hf hl => exact .ended hq hf hl
  | begin a w stopAt => cases ho
  | reset pose => cases ho
  | subscribe observer => cases ho
  | unsubscribe observer => cases ho

theorem filmed_after (hn : p.engine.settings.frames = .int n) (hpos : 0 < n)
    (hc : p.engine.world.canEnter p.engine.committed.cell) {s : Session} (h : Filmed low n p a s)
    {hs : List Happening} (ho : ∀ y ∈ hs, y.IsOwn) : Filmed low n p a (s.after hs) := by
  induction hs generalizing s with
  | nil => exact h
  | cons y hs ih =>
    have hy := filmed_happen hn hpos hc h (ho y (by simp))
    exact ih hy (fun z hz => ho z (by simp [hz]))

/-- However far it has come, an action has its footage. -/
theorem Filmed.footage {s : Session} (h : Filmed low n p a s) :
    ∃ fs, Seen low p fs s.performance ∧
      Footage p.engine.world low n p.engine.committed a fs s.engine.committed ∧
      ∀ answer, s.result = some (.ok answer) →
        ∀ f, fs.getLast? = some f → f = .still s.engine.committed := by
  cases h with
  | paused hq hb => exact ⟨_, hq, hb.footage, by simp⟩
  | ended hq hf hl => exact ⟨_, hq, hf, fun answer hr => hl answer (Option.some.inj hr)⟩

theorem Seen.legal_sighting (h : Seen low p fs q) {x : Binary64 × Frame} (hx : x ∈ q.sightings) :
    (x.2.pose low).IsLegal p.engine.world := by
  have hmem : x.2 ∈ fs.flatMap (List.replicate p.engine.observers.length) := by
    rw [← h.frames]
    exact List.mem_map_of_mem hx
  obtain ⟨f, hf, hr⟩ := List.mem_flatMap.mp hmem
  rw [(List.mem_replicate.mp hr).2]
  exact h.legal f hf

-- What no effect changes, no action and no reset changes.

section Kept

variable {α : Type} {φ : Engine → α}

theorem kept_apply (hφ : ∀ e x, φ (Engine.apply e x) = φ e) (p : Performance) (x : Effect) :
    φ (p.apply x).engine = φ p.engine := by
  rw [Performance.engine_apply, hφ]

theorem kept_applyAll (hφ : ∀ e x, φ (Engine.apply e x) = φ e) (p : Performance)
    (xs : List Effect) : φ (p.applyAll xs).engine = φ p.engine := by
  induction xs generalizing p with
  | nil => rfl
  | cons x xs ih => exact (ih (p.apply x)).trans (kept_apply hφ p x)

theorem kept_interrupt (hφ : ∀ e x, φ (Engine.apply e x) = φ e) (p : Performance) (b : Activity)
    (f : Fault) : φ (interrupt p b f).engine = φ p.engine := by
  rw [engine_interrupt]
  split
  · exact hφ p.engine (.publish (.still p.engine.committed))
  · rfl

theorem kept_proceed (hφ : ∀ e x, φ (Engine.apply e x) = φ e) (p : Performance) (x : Stretch) :
    φ (proceed p x).engine = φ p.engine := by
  have hx := kept_applyAll hφ p x.effects
  unfold proceed
  cases x.next with
  | done answer => exact hx
  | failed f => exact hx
  | pause seconds b =>
    dsimp only
    unfold suspend
    cases (p.applyAll x.effects).watch.token.check with
    | error f => exact (kept_interrupt hφ _ b f).trans hx
    | ok u =>
      dsimp only
      cases seconds.checkPause with
      | error f => exact hx
      | ok v => exact hx

/-- Nothing that happens changes it, subscribing and unsubscribing aside. -/
theorem kept_happen (hφ : ∀ e x, φ (Engine.apply e x) = φ e) (s : Session) {y : Happening}
    (hy : y.observer? = none) : φ (s.happen y).engine = φ s.engine := by
  cases y with
  | begin a v stopAt =>
    simp only [happen]
    cases s.doing with
    | some b => rfl
    | none => exact kept_proceed hφ _ _
  | cancel reason => rfl
  | wake v =>
    simp only [happen]
    cases s.doing with
    | none => rfl
    | some b =>
      dsimp only
      unfold wake
      cases (s.performance.atTime v).watch.token.check with
      | error f => exact kept_interrupt hφ _ b f
      | ok u => exact kept_proceed hφ _ _
  | reset pose =>
    simp only [happen, Performance.reset]
    cases s.performance.engine.resetStance pose with
    | error f => rfl
    | ok t => exact kept_apply hφ s.performance (.commit t)
  | subscribe observer => cases hy
  | unsubscribe observer => cases hy

end Kept

/-- Nothing that happens changes the settings. -/
theorem settings_happen (s : Session) (y : Happening) :
    (s.happen y).engine.settings = s.engine.settings := by
  have hφ (e : Engine) (x : Effect) : (e.apply x).settings = e.settings := by cases x <;> rfl
  cases y with
  | subscribe observer => rfl
  | unsubscribe observer => rfl
  | begin a v stopAt => exact kept_happen hφ s rfl
  | cancel reason => rfl
  | wake v => exact kept_happen hφ s rfl
  | reset pose => exact kept_happen hφ s rfl

theorem settings_after (s : Session) (hs : List Happening) :
    (s.after hs).engine.settings = s.engine.settings := by
  induction hs generalizing s with
  | nil => rfl
  | cons y hs ih => exact (ih (s.happen y)).trans (settings_happen s y)

/-- From an accepted start on, through any actions, cancellations and resets: whatever an action
publishes until it ends, or until now, is on a cell of the world that is no wall and has a direction
on the circle. It lies on the way of the unit move or turn that is in progress, and what an action
publishes last when it completes is the committed pose. -/
theorem frames_stay_on_path {w : World} {pose : Option PoseEntry} {m : MotionSettings} {e : Engine}
    (he : Engine.make w pose m = .ok e) (hm : m.frames = .int n) (hn : 0 < n)
    (hs : List Happening) (hd : ((start e).after hs).doing = none) (a : Action) (v : Watch)
    (stopAt : Option Nat) {gs : List Happening} (ho : ∀ y ∈ gs, y.IsOwn) (low : ℚ) :
    let r := (start e).after hs
    let s := (r.happen (.begin a v stopAt)).after gs
    (∀ x ∈ s.performance.sightings, (x.2.pose low).IsLegal w) ∧
      ∃ fs : List Frame, s.performance.sightings.map (·.2) =
          fs.flatMap (List.replicate r.engine.observers.length) ∧
        Footage w low n r.engine.committed a fs s.engine.committed ∧
        ∀ answer, s.result = some (.ok answer) →
          ∀ f, fs.getLast? = some f → f.pose low = s.engine.committed.pose ℚ := by
  intro r s
  obtain ⟨t, ht, rfl⟩ := Queue.make_eq_ok he
  have hstart : Steady w (start ⟨w, m, t, .still t, [], 0, []⟩) :=
    ⟨rfl, Queue.canEnter_of_startStance ht, fun _ => rfl, fun _ hb => by cases hb⟩
  have hsteady : Steady w r := steady_after hstart hs
  let p : Performance := { r.performance.refresh with watch := v, stopAt }
  have hworld : p.engine.world = w := hsteady.world
  have hframes : p.engine.settings.frames = .int n := by
    change r.engine.settings.frames = .int n
    rw [settings_after]
    exact hm
  have hc : p.engine.world.canEnter p.engine.committed.cell := by
    rw [hworld]
    exact hsteady.cell
  have hbegin : r.happen (.begin a v stopAt) = begin p a := by
    simp only [happen, hd, p, r]
  have hfilmed : Filmed low n p a s := by
    simp only [s, hbegin]
    exact filmed_after hframes hn hc (filmed_begin hframes hn hc rfl a) ho
  obtain ⟨fs, hseen, hfootage, hlast⟩ := hfilmed.footage
  rw [hworld] at hfootage
  refine ⟨?_, fs, hseen.frames, hfootage, ?_⟩
  · intro x hx
    have hlegal := hseen.legal_sighting hx
    rwa [hworld] at hlegal
  · intro answer hr f hf
    rw [hlast answer hr f hf]
    rfl

/-- A step that is cancelled in its second pause. -/
theorem frames_stay_on_path_corridor :
    let r := (start .corridor).after [.subscribe 0]
    let s := (r.happen (.begin (.move false 1) .start none)).after
      [.wake .start, .cancel (.text "stop"), .wake .start]
    (∀ x ∈ s.performance.sightings, (x.2.pose (1/2 : ℚ)).IsLegal Engine.corridor.world) ∧
      ∃ fs : List Frame, s.performance.sightings.map (·.2) =
          fs.flatMap (List.replicate r.engine.observers.length) ∧
        Footage Engine.corridor.world (1/2) 20 r.engine.committed (.move false 1) fs
          s.engine.committed := by
  have he : Engine.make Engine.corridor.world none .standard = .ok .corridor := rfl
  have ho : ∀ y ∈ [Happening.wake .start, .cancel (.text "stop"), .wake .start], y.IsOwn := by
    simp [Happening.IsOwn]
  have h := frames_stay_on_path he (n := 20) rfl (by decide) [.subscribe 0] rfl (.move false 1)
    .start none ho (1/2)
  exact h.imp_right (fun ⟨fs, hfs, hfootage, _⟩ => ⟨fs, hfs, hfootage⟩)

end Session

end Courier
