import Courier.Proofs.Engine.Session
import Courier.Proofs.Number.Exact
import Courier.Proofs.Queue.Reachable

namespace Courier

/-- The time between two frames is there for an animation that has begun. -/
def Activity.Paced (m : MotionSettings) : Activity → Prop
  | .gliding .. => ∃ s, m.frameInterval = .ok s
  | .settling _ => True
  | .squashing .. => ∃ s, m.squashInterval = .ok s

/-- An engine that pauses in an activity; only an animation shows anything but what counts. -/
structure Engine.Poised (e : Engine) (a : Activity) : Prop where
  shown : a.showsCommitted = false → e.shown = .still e.committed
  paced : a.Paced e.settings

/-- Whether an action goes on. -/
def Progress.isPause : Progress → Bool
  | .pause .. => true
  | _ => false

namespace Stretch

/-- A stretch that leaves the engine poised if it pauses; only the pause after a unit move can be
without end. -/
structure Poises (e : Engine) (x : Stretch) : Prop where
  poised : ∀ seconds a, x.next = .pause seconds a → (e.applyAll x.effects).Poised a
  pause : ∀ seconds a, x.next = .pause seconds a → a.showsCommitted →
    seconds.checkPause = .ok ()

/-- A stretch that shows what counts if nothing comes after it. -/
structure Settles (e : Engine) (x : Stretch) : Prop where
  done : ∀ answer, x.next = .done answer →
    (e.applyAll x.effects).shown = .still (e.applyAll x.effects).committed
  failed : ∀ f, x.next = .failed f →
    (e.applyAll x.effects).shown = .still (e.applyAll x.effects).committed

variable {e : Engine} {x : Stretch}

theorem poises_of_ended (h : x.next.isPause = false) : Poises e x := by
  constructor
  · intro seconds a hn
    rw [hn] at h
    cases h
  · intro seconds a hn
    rw [hn] at h
    cases h

theorem settles_of_pause {seconds : Number} {a : Activity} (h : x.next = .pause seconds a) :
    Settles e x := by
  constructor
  · intro answer hn
    rw [h] at hn
    cases hn
  · intro f hn
    rw [h] at hn
    cases hn

theorem settles_of_shown (h : (e.applyAll x.effects).shown =
    .still (e.applyAll x.effects).committed) : Settles e x :=
  ⟨fun _ _ => h, fun _ _ => h⟩

theorem poises_after {es : List Effect} (h : Poises (e.applyAll es) x) :
    Poises e (.after es x) where
  poised seconds a hn := by
    have hp := h.poised seconds a hn
    rwa [← Engine.applyAll_append] at hp
  pause := h.pause

theorem settles_after {es : List Effect} (h : Settles (e.applyAll es) x) :
    Settles e (.after es x) where
  done answer hn := by
    have hd := h.done answer hn
    rwa [← Engine.applyAll_append] at hd
  failed f hn := by
    have hd := h.failed f hn
    rwa [← Engine.applyAll_append] at hd

/-- An animation pauses for a binary64 number of seconds, so there is a time to pause until. -/
theorem poises_pause {seconds : Except NumberFault Number} {a : Activity}
    (ha : ∀ s, seconds = .ok s → (∃ y, s = .float y) ∧ a.Paced e.settings)
    (hc : a.showsCommitted) : Poises e (.pause seconds a) := by
  cases seconds with
  | error f => exact poises_of_ended rfl
  | ok s =>
    obtain ⟨⟨y, rfl⟩, hp⟩ := ha s rfl
    constructor
    · intro t b hn
      cases hn
      refine ⟨?_, hp⟩
      intro hb
      rw [hc] at hb
      cases hb
    · intro t b hn _
      cases hn
      exact Number.checkPause_float y

theorem poises_gliding (origin target : Stance) (k : Nat) (trek : Option Trek) :
    Poises e (.pause e.settings.frameInterval (.gliding origin target k trek)) :=
  poises_pause (fun s hs => ⟨MotionSettings.frameInterval_isFloat hs, s, hs⟩) rfl

theorem poises_squashing (origin : Stance) (k : Nat) (taking : Bool) :
    Poises e (.pause e.settings.squashInterval (.squashing origin k taking)) :=
  poises_pause (fun s hs => ⟨MotionSettings.squashInterval_isFloat hs, s, hs⟩) rfl

theorem poises_settling {seconds : Except NumberFault Number} {t : Trek}
    (h : e.shown = .still e.committed) : Poises e (.pause seconds (.settling t)) := by
  cases seconds with
  | error f => exact poises_of_ended rfl
  | ok s =>
    constructor
    · intro u a hn
      cases hn
      exact ⟨fun _ => h, trivial⟩
    · intro u a hn ha
      cases hn
      cases ha

theorem settles_pause {seconds : Except NumberFault Number} {a : Activity}
    (h : e.shown = .still e.committed) : Settles e (.pause seconds a) := by
  cases seconds with
  | ok s => exact settles_of_pause rfl
  | error f => exact settles_of_shown h

theorem poises_glide (s t : Stance) (trek : Option Trek) :
    Poises e (Action.glide e.settings s t trek) := by
  unfold Action.glide
  cases e.settings.frames.count with
  | error f => exact poises_of_ended rfl
  | ok n => exact poises_gliding s t 1 trek

theorem settles_glide (h : e.shown = .still e.committed) (s t : Stance) (trek : Option Trek) :
    Settles e (Action.glide e.settings s t trek) := by
  unfold Action.glide
  cases e.settings.frames.count with
  | error f => exact settles_of_shown h
  | ok n => exact settles_pause h

theorem poises_stride (w : World) (s : Stance) (t : Trek) :
    Poises e (Action.stride e.settings w s t) := by
  unfold Action.stride
  cases t.left with
  | zero => exact poises_of_ended rfl
  | succ left =>
    dsimp only
    split
    · exact poises_glide _ _ _
    · exact poises_of_ended rfl

theorem settles_stride (h : e.shown = .still e.committed) (w : World) (s : Stance) (t : Trek) :
    Settles e (Action.stride e.settings w s t) := by
  unfold Action.stride
  cases t.left with
  | zero => exact settles_of_shown h
  | succ left =>
    dsimp only
    split
    · exact settles_glide h _ _ _
    · exact settles_of_shown h

theorem poises_squash (s : Stance) (taking : Bool) :
    Poises e (Action.squash e.settings s taking) := by
  unfold Action.squash
  cases hs : e.settings.squashInterval with
  | error f => exact poises_of_ended rfl
  | ok seconds =>
    cases e.settings.squashFrames.count with
    | error f => exact poises_of_ended rfl
    | ok n =>
      have hp := poises_squashing (e := e) s 1 taking
      rwa [hs] at hp

theorem settles_squash (h : e.shown = .still e.committed) (s : Stance) (taking : Bool) :
    Settles e (Action.squash e.settings s taking) := by
  unfold Action.squash
  split
  · exact settles_of_shown h
  · exact settles_of_shown h
  · exact settles_pause h

theorem poises_begin (e : Engine) (a : Action) : Poises e (e.begin a) := by
  unfold Engine.begin
  cases a with
  | move backward steps => exact poises_stride _ _ _
  | turn left => exact poises_glide _ _ _
  | pickup =>
    simp only [Action.begin]
    split
    · exact poises_of_ended rfl
    · split
      · exact poises_squash _ _
      · exact poises_of_ended rfl
  | dropoff =>
    simp only [Action.begin]
    split
    · split
      · exact poises_squash _ _
      · exact poises_of_ended rfl
    · exact poises_of_ended rfl

/-- An action that ends at once changes nothing that is shown. -/
theorem settles_begin (h : e.shown = .still e.committed) (a : Action) :
    Settles e (e.begin a) := by
  unfold Engine.begin
  cases a with
  | move backward steps => exact settles_stride h _ _ _
  | turn left => exact settles_glide h _ _ _
  | pickup =>
    simp only [Action.begin]
    split
    · exact settles_of_shown h
    · split
      · exact settles_squash h _ _
      · exact settles_of_shown h
  | dropoff =>
    simp only [Action.begin]
    split
    · split
      · exact settles_squash h _ _
      · exact settles_of_shown h
    · exact settles_of_shown h

theorem poises_resume (e : Engine) (a : Activity) : Poises e (e.resume a) := by
  unfold Engine.resume
  cases a with
  | gliding origin target k trek =>
    simp only [Action.resume]
    split
    · exact poises_after (poises_gliding (e := e.applyAll _) _ _ _ _)
    · cases trek with
      | none => exact poises_of_ended rfl
      | some t => exact poises_after (poises_settling rfl)
  | settling t => exact poises_stride _ _ _
  | squashing origin k taking =>
    simp only [Action.resume]
    split
    · exact poises_after (poises_squashing (e := e.applyAll _) _ _ _)
    · exact poises_of_ended rfl

/-- An animation does not fail once it has begun, and it ends on what counts. -/
theorem settles_resume {a : Activity} (h : e.Poised a) : Settles e (e.resume a) := by
  have hp := h.paced
  unfold Engine.resume
  cases a with
  | gliding origin target k trek =>
    obtain ⟨s, hs⟩ := hp
    simp only [Action.resume]
    split
    · rw [hs]
      exact settles_of_pause rfl
    · cases trek with
      | none => exact settles_of_shown rfl
      | some t => exact settles_after (settles_pause rfl)
  | settling t => exact settles_stride (h.shown rfl) _ _ _
  | squashing origin k taking =>
    obtain ⟨s, hs⟩ := hp
    simp only [Action.resume]
    split
    · rw [hs]
      exact settles_of_pause rfl
    · cases taking with
      | true => exact settles_of_shown rfl
      | false => exact settles_of_shown rfl

end Stretch

namespace Session

def start (e : Engine) : Session := ⟨.start e, none, none⟩

/-- The agent stands where it may, and is shown there unless an action is in progress. -/
structure Steady (w : World) (s : Session) : Prop where
  world : s.engine.world = w
  cell : w.canEnter s.engine.committed.cell
  still : s.doing = none → s.engine.shown = .still s.engine.committed
  poised : ∀ a, s.doing = some a → s.engine.Poised a ∧ w.standing.Suits a

variable {w : World} {p : Performance} {s : Session} {a : Activity}

theorem fits_standing {t : Stance} (h : w.canEnter t.cell) (n : Nat) : w.standing.Fits t n :=
  ⟨h, fun _ => trivial, fun _ => ⟨trivial, trivial⟩⟩

theorem engine_interrupt (p : Performance) (a : Activity) (f : Fault) :
    (interrupt p a f).engine =
      if a.showsCommitted then { p.engine with shown := .still p.engine.committed }
      else p.engine := by
  unfold interrupt engine
  dsimp only
  split
  · exact Performance.engine_apply p _
  · rfl

theorem steady_of_ended (hd : s.doing = none) (hw : s.engine.world = w)
    (hc : w.canEnter s.engine.committed.cell) (hs : s.engine.shown = .still s.engine.committed) :
    Steady w s where
  world := hw
  cell := hc
  still _ := hs
  poised a ha := by
    rw [hd] at ha
    cases ha

theorem steady_interrupt (hw : p.engine.world = w) (hc : w.canEnter p.engine.committed.cell)
    (ha : p.engine.Poised a) (f : Fault) : Steady w (interrupt p a f) := by
  have he := engine_interrupt p a f
  have hdoing : (interrupt p a f).doing = none := rfl
  cases hs : a.showsCommitted with
  | true =>
    rw [hs, if_pos rfl] at he
    refine steady_of_ended hdoing ?_ ?_ ?_
    · rw [he]; exact hw
    · rw [he]; exact hc
    · rw [he]
  | false =>
    rw [hs, if_neg (by simp)] at he
    refine steady_of_ended hdoing ?_ ?_ ?_
    · rw [he]; exact hw
    · rw [he]; exact hc
    · rw [he]; exact ha.shown hs

theorem steady_suspend (hw : p.engine.world = w) (hc : w.canEnter p.engine.committed.cell)
    (ha : p.engine.Poised a) (hs : w.standing.Suits a) {seconds : Number}
    (hp : a.showsCommitted → seconds.checkPause = .ok ()) : Steady w (suspend p seconds a) := by
  unfold suspend
  cases p.watch.token.check with
  | error f => exact steady_interrupt hw hc ha f
  | ok u =>
    dsimp only
    cases hk : seconds.checkPause with
    | error f =>
      have hn : a.showsCommitted = false := by
        cases hb : a.showsCommitted with
        | false => rfl
        | true =>
          rw [hp hb] at hk
          cases hk
      exact steady_of_ended rfl hw hc (ha.shown hn)
    | ok v =>
      refine ⟨hw, hc, ?_, ?_⟩
      · intro hd
        cases hd
      · intro b hb
        cases hb
        exact ⟨ha, hs⟩

theorem steady_proceed (hw : p.engine.world = w) {x : Stretch}
    (hx : w.standing.Admits p.engine.committed p.engine.completed x)
    (hp : x.Poises p.engine) (hs : x.Settles p.engine) : Steady w (proceed p x) := by
  have he := Performance.engine_applyAll p x.effects
  have hwx : (p.applyAll x.effects).engine.world = w := by rw [he, Engine.world_applyAll, hw]
  have hcx : w.canEnter (p.applyAll x.effects).engine.committed.cell := by
    rw [he, Engine.committed_applyAll]
    exact hx.fits.cell
  unfold proceed
  cases hn : x.next with
  | done answer =>
    refine steady_of_ended rfl hwx hcx ?_
    rw [engine, he]
    exact hs.done answer hn
  | failed f =>
    refine steady_of_ended rfl hwx hcx ?_
    rw [engine, he]
    exact hs.failed f hn
  | pause seconds b =>
    have hb : (p.applyAll x.effects).engine.Poised b := by
      rw [he]
      exact hp.poised seconds b hn
    exact steady_suspend hwx hcx hb (hx.suits seconds b hn) (hp.pause seconds b hn)

theorem steady_wake (hw : p.engine.world = w) (hc : w.canEnter p.engine.committed.cell)
    (ha : p.engine.Poised a) (hs : w.standing.Suits a) : Steady w (wake p a) := by
  unfold wake
  cases p.watch.token.check with
  | error f => exact steady_interrupt hw hc ha f
  | ok u =>
    have hx : w.standing.Admits p.engine.committed p.engine.completed (p.engine.resume a) := by
      unfold Engine.resume
      rw [hw]
      exact Realm.admits_resume (fits_standing hc _) hs
    exact steady_proceed hw hx (Stretch.poises_resume _ _) (Stretch.settles_resume ha)

theorem steady_begin (hw : p.engine.world = w) (hc : w.canEnter p.engine.committed.cell)
    (hs : p.engine.shown = .still p.engine.committed) (a : Action) : Steady w (begin p a) := by
  have hx : w.standing.Admits p.engine.committed p.engine.completed (p.engine.begin a) := by
    unfold Engine.begin
    rw [hw]
    exact Realm.admits_begin (fits_standing hc _) a
  exact steady_proceed hw hx (Stretch.poises_begin _ _) (Stretch.settles_begin hs a)

theorem steady_happen (h : Steady w s) (x : Happening) : Steady w (s.happen x) := by
  cases x with
  | begin a v stopAt =>
    simp only [happen]
    cases hd : s.doing with
    | some b => exact h
    | none =>
      let q : Performance := { s.performance.refresh with watch := v, stopAt }
      exact steady_begin (p := q) h.world h.cell (h.still hd) a
  | cancel reason => exact ⟨h.world, h.cell, h.still, h.poised⟩
  | wake v =>
    simp only [happen]
    cases hd : s.doing with
    | none => exact h
    | some b =>
      obtain ⟨hb, hs⟩ := h.poised b hd
      exact steady_wake (p := s.performance.atTime v) h.world h.cell hb hs
  | reset pose =>
    simp only [happen, Performance.reset]
    cases hr : s.performance.engine.resetStance pose with
    | error f => exact h
    | ok t =>
      have he : (s.performance.apply (.commit t)).engine =
          { s.engine with committed := t, shown := .still t } := Performance.engine_apply _ _
      have ht : w.canEnter t.cell := by
        have hk := Queue.canEnter_of_startStance hr
        rwa [show s.performance.engine.world = w from h.world] at hk
      refine ⟨?_, ?_, ?_, ?_⟩
      · rw [engine, he]; exact h.world
      · rw [engine, he]; exact ht
      · intro _
        rw [engine, he]
      · intro b hb
        obtain ⟨hp, hs⟩ := h.poised b hb
        rw [engine, he]
        exact ⟨⟨fun _ => rfl, hp.paced⟩, hs⟩
  | subscribe observer =>
    refine ⟨h.world, h.cell, h.still, ?_⟩
    intro b hb
    obtain ⟨hp, hs⟩ := h.poised b hb
    exact ⟨⟨hp.shown, hp.paced⟩, hs⟩
  | unsubscribe observer =>
    refine ⟨h.world, h.cell, h.still, ?_⟩
    intro b hb
    obtain ⟨hp, hs⟩ := h.poised b hb
    exact ⟨⟨hp.shown, hp.paced⟩, hs⟩

theorem steady_after (h : Steady w s) (hs : List Happening) : Steady w (s.after hs) := by
  induction hs generalizing s with
  | nil => exact h
  | cons x hs ih => exact ih (steady_happen h x)

theorem reset_failed {pose : Option PoseEntry} {f : Fault}
    (h : (s.performance.reset pose).1 = .error f) : s.happen (.reset pose) = s := by
  simp only [happen]
  simp only [Performance.reset] at h ⊢
  cases hr : s.performance.engine.resetStance pose with
  | error g => rfl
  | ok t => rw [hr] at h; cases h

end Session

/-- The pose of a stance: whole coordinates, a quarter turn, full height and no motion. -/
theorem Stance.pose_whole (s : Stance) :
    (s.pose Binary64).x = .ofInt s.cell.1 ∧ (s.pose Binary64).y = .ofInt s.cell.2 ∧
      (∃ n : Nat, n < 4 ∧ (s.pose Binary64).direction = .ofInt n) ∧
      (s.pose Binary64).scale = .ofInt 1 ∧ (s.pose Binary64).moving = false := by
  have hn : s.heading.toNat < 4 := by cases s.heading <;> decide
  have hs : (s.pose Binary64).scale = .ofInt 1 := by simp only [pose, Scalar.ofInt]
  exact ⟨rfl, rfl, ⟨s.heading.toNat, hn, rfl⟩, hs, rfl⟩

theorem World.toInt?_of_canEnter {w : World} {c : Cell} (h : w.canEnter c) (hw : w.width ≤ 2^53)
    (hh : w.height ≤ 2^53) :
    (Binary64.ofInt c.1).toInt? = some c.1 ∧ (Binary64.ofInt c.2).toInt? = some c.2 := by
  obtain ⟨hx, hy⟩ := natAbs_lt_of_canEnter h
  exact ⟨Binary64.toInt?_ofInt (Nat.lt_of_lt_of_le hx hw),
    Binary64.toInt?_ofInt (Nat.lt_of_lt_of_le hy hh)⟩

theorem World.isWhole_of_canEnter {w : World} {c : Cell} (h : w.canEnter c) {k : Nat}
    (hk : k ≤ 1023) (hw : w.width ≤ 2^k) (hh : w.height ≤ 2^k) :
    (∃ i, (Binary64.ofInt c.1).toInt? = some i) ∧ ∃ i, (Binary64.ofInt c.2).toInt? = some i := by
  obtain ⟨hx, hy⟩ := natAbs_lt_of_canEnter h
  exact ⟨Binary64.isWhole_ofInt (Binary64.ofInt_isFinite hk (Nat.lt_of_lt_of_le hx hw)),
    Binary64.isWhole_ofInt (Binary64.ofInt_isFinite hk (Nat.lt_of_lt_of_le hy hh))⟩

theorem World.isWall_of_canEnter {w : World} {c : Cell} (h : w.canEnter c) :
    w.isWall c = false := by
  unfold canEnter at h
  unfold isWall
  cases hk : w.kindAt? c with
  | none => rfl
  | some kind =>
    rw [hk] at h
    simpa using h

namespace Session

/-- From an accepted start on, through any actions, cancellations and resets: the committed pose is
at rest on a cell of the world that is no wall, it is the pose shown whenever no action is in
progress, and a reset that is refused changes nothing. -/
theorem stays_steady {w : World} {pose : Option PoseEntry} {m : MotionSettings} {e : Engine}
    (he : Engine.make w pose m = .ok e) (hs : List Happening) :
    let s := (start e).after hs
    let c := s.engine.committed.cell
    let p := s.engine.committed.pose Binary64
    w.inBounds c = true ∧ w.isWall c = false ∧
      p.x = .ofInt c.1 ∧ p.y = .ofInt c.2 ∧
      (∀ k ≤ 1023, w.width ≤ 2^k → w.height ≤ 2^k →
        (∃ i, p.x.toInt? = some i) ∧ ∃ i, p.y.toInt? = some i) ∧
      (w.width ≤ 2^53 → w.height ≤ 2^53 → p.x.toInt? = some c.1 ∧ p.y.toInt? = some c.2) ∧
      (∃ n : Nat, n < 4 ∧ p.direction = .ofInt n) ∧ p.scale = .ofInt 1 ∧ p.moving = false ∧
      (s.doing = none →
        s.engine.shown = .still s.engine.committed ∧ s.engine.poseOf s.engine.shown = p) ∧
      ∀ pose f, (s.performance.reset pose).1 = .error f → s.happen (.reset pose) = s := by
  intro s c p
  obtain ⟨t, ht, rfl⟩ := Queue.make_eq_ok he
  have hk := Queue.canEnter_of_startStance ht
  have hsteady : Steady w s := by
    refine steady_after ?_ hs
    exact ⟨rfl, hk, fun _ => rfl, fun _ hd => by cases hd⟩
  obtain ⟨hx, hy, hd, hscale, hm⟩ := s.engine.committed.pose_whole
  refine ⟨World.inBounds_of_canEnter hsteady.cell, World.isWall_of_canEnter hsteady.cell, hx, hy,
    ?_, ?_, hd, hscale, hm, ?_, ?_⟩
  · intro k hk hw hh
    exact World.isWhole_of_canEnter hsteady.cell hk hw hh
  · intro hw hh
    exact World.toInt?_of_canEnter hsteady.cell hw hh
  · intro hn
    have hshown := hsteady.still hn
    exact ⟨hshown, by rw [hshown]; rfl⟩
  · intro pose f hf
    exact reset_failed hf

/-- A turn that is cancelled in its first pause, after which a start outside is refused. -/
theorem stays_steady_corridor :
    let s := (start .corridor).after [.begin (.turn true) .start none, .cancel (.text "stop"),
      .wake .start, .reset (some ⟨.int 7, .int 0, .int 1, .bool false, .int 1, .bool false⟩)]
    s.doing = none ∧ s.engine.shown = .still s.engine.committed := by
  intro s
  have he : Engine.make Engine.corridor.world none .standard = .ok .corridor := rfl
  obtain ⟨_, _, _, _, _, _, _, _, _, hshown, _⟩ := stays_steady he [.begin (.turn true) .start none,
    .cancel (.text "stop"), .wake .start,
    .reset (some ⟨.int 7, .int 0, .int 1, .bool false, .int 1, .bool false⟩)]
  have hd : s.doing = none := by
    have hc (t : Session) := doing_cancelled t (.text "stop") .start
    simp only [after_cons, after_nil] at hc
    simp only [s, after_cons, after_nil, doing_reset]
    exact hc _
  exact ⟨hd, (hshown hd).1⟩

end Session

end Courier
