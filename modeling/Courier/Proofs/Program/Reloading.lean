import Courier.Proofs.Program.Resaving

namespace Courier

namespace Json

mutual
/-- A value as a JSON text gives it: the keys of an object are texts, and each of them is there
once. -/
def Value.IsJson : Value → Prop
  | .list vs => Value.AreJson vs
  | .object ms => (ms.map (·.1)).Nodup ∧ Value.HoldJson ms
  | _ => True

def Value.AreJson : List Value → Prop
  | [] => True
  | v :: vs => Value.IsJson v ∧ Value.AreJson vs

def Value.HoldJson : List (Key × Value) → Prop
  | [] => True
  | (k, v) :: ms => (∃ s, k = .text s) ∧ Value.IsJson v ∧ Value.HoldJson ms
end

theorem Value.AreJson.mem {vs : List Value} (h : Value.AreJson vs) : ∀ v ∈ vs, v.IsJson := by
  induction vs with
  | nil => simp
  | cons v vs ih =>
    intro w hw
    rcases List.mem_cons.mp hw with rfl | hw
    · exact h.1
    · exact ih h.2 w hw

theorem Value.HoldJson.lookup {ms : Members} (h : Value.HoldJson ms) {key : String} {v : Value}
    (hv : Json.lookup ms (Key.text key) = some v) : v.IsJson := by
  obtain ⟨m, hmem, rfl⟩ := Json.mem_of_lookup hv
  clear hv
  induction ms with
  | nil => cases hmem
  | cons r ms ih =>
    rcases List.mem_cons.mp hmem with rfl | hmem
    · exact h.2.1
    · exact ih h.2.2 hmem

end Json

namespace Program

open Json (Key Value Members)

namespace Slots

def names (s : Slots) : List String := s.inputs.map (·.1) ++ s.statements.map (·.1)

/-- Slots that can be told apart, with blocks in them of which this is true as well. -/
structure AreNeat (s : Slots) : Prop where
  names : Program.AreNeat (s.statements.map (·.1)) (s.inputs.map (·.1))
  statements : Block.EverywhereIn Program.AreNeat s.statements
  inputs : Block.EverywhereUnder Program.AreNeat s.inputs

theorem empty_neat (slot : String) : AreNeat .empty ∧ ∀ x ∈ names .empty, x = slot :=
  ⟨⟨⟨by simp [empty], by simp [empty], by simp [empty], by simp [empty]⟩, trivial, trivial⟩,
    by simp [names, empty]⟩

theorem sequence_neat (slot : String) {bs : List Block}
    (h : Block.EverywhereAmong Program.AreNeat bs) :
    AreNeat ⟨[(slot, bs)], []⟩ ∧ ∀ x ∈ names ⟨[(slot, bs)], []⟩, x = slot :=
  ⟨⟨⟨by simp, by simp, by simp, by simp⟩, ⟨h, trivial⟩, trivial⟩, by simp [names]⟩

theorem single_neat {slot : String} (hs : isStatementSlot slot = false) {b : Block}
    (h : b.Everywhere Program.AreNeat) :
    AreNeat ⟨[], [(slot, b)]⟩ ∧ ∀ x ∈ names ⟨[], [(slot, b)]⟩, x = slot :=
  ⟨⟨⟨by simp, by simp, by simp, by simpa using hs⟩, trivial, ⟨h, trivial⟩⟩, by simp [names]⟩

end Slots

theorem everywhereIn_append {P : List String → List String → Prop}
    {ss ts : List (String × List Block)} (hs : Block.EverywhereIn P ss)
    (ht : Block.EverywhereIn P ts) : Block.EverywhereIn P (ss ++ ts) := by
  induction ss with
  | nil => exact ht
  | cons s ss ih => exact ⟨hs.1, ih hs.2⟩

theorem everywhereUnder_append {P : List String → List String → Prop}
    {is js : List (String × Block)} (hi : Block.EverywhereUnder P is)
    (hj : Block.EverywhereUnder P js) : Block.EverywhereUnder P (is ++ js) := by
  induction is with
  | nil => exact hj
  | cons i is ih => exact ⟨hi.1, ih hi.2⟩

theorem everywhereAmong_flatten {P : List String → List String → Prop} {bss : List (List Block)}
    (h : ∀ bs ∈ bss, Block.EverywhereAmong P bs) : Block.EverywhereAmong P bss.flatten := by
  induction bss with
  | nil => trivial
  | cons bs bss ih =>
    have hbs := h bs (by simp)
    have hrest := ih (fun cs hc => h cs (by simp [hc]))
    rw [List.flatten_cons]
    clear h ih
    induction bs with
    | nil => exact hrest
    | cons b bs ihb => exact ⟨hbs.1, ihb hbs.2⟩

/-- What is true of each result is true of all of them. -/
theorem forall_of_mapM {α β : Type} {P : β → Prop} {f : α → Except Fault β} {xs : List α}
    {ys : List β} (hf : ∀ x ∈ xs, ∀ y, f x = .ok y → P y) (h : xs.mapM f = .ok ys) :
    ∀ y ∈ ys, P y := by
  induction xs generalizing ys with
  | nil =>
    cases h
    simp
  | cons x xs ih =>
    rw [List.mapM_cons] at h
    obtain ⟨y, hy, h⟩ := bind_eq_ok h
    obtain ⟨zs, hz, h⟩ := bind_eq_ok h
    cases h
    intro w hw
    rcases List.mem_cons.mp hw with rfl | hw
    · exact hf x List.mem_cons_self w hy
    · exact ih (fun u hu => hf u (List.mem_cons_of_mem _ hu)) hz w hw

theorem Slots.AreNeat.append {s t : Slots} (hs : s.AreNeat) (ht : t.AreNeat)
    (hd : ∀ x ∈ s.names, x ∉ t.names) : (s ++ t).AreNeat := by
  simp only [Slots.names, List.mem_append, not_or] at hd
  refine ⟨⟨?_, ?_, ?_, ?_⟩, everywhereIn_append hs.statements ht.statements,
    everywhereUnder_append hs.inputs ht.inputs⟩
  · rw [Slots.statements_append, List.map_append, List.nodup_append]
    refine ⟨hs.names.sequences, ht.names.sequences, ?_⟩
    rintro x hx y hy rfl
    exact (hd x (.inr hx)).2 hy
  · rw [Slots.inputs_append, List.map_append, List.nodup_append]
    refine ⟨hs.names.singles, ht.names.singles, ?_⟩
    rintro x hx y hy rfl
    exact (hd x (.inl hx)).1 hy
  · intro x hx hy
    simp only [Slots.inputs_append, Slots.statements_append, List.map_append, List.mem_append]
      at hx hy
    rcases hx with hx | hx <;> rcases hy with hy | hy
    · exact hs.names.apart x hx hy
    · exact (hd x (.inl hx)).2 hy
    · exact (hd x (.inr hy)).1 hx
    · exact ht.names.apart x hx hy
  · intro x hx
    simp only [Slots.inputs_append, List.map_append, List.mem_append] at hx
    rcases hx with hx | hx
    · exact hs.names.fixed x hx
    · exact ht.names.fixed x hx

theorem Slots.mem_names_append {s t : Slots} {x : String} :
    x ∈ (s ++ t).names ↔ x ∈ s.names ∨ x ∈ t.names := by
  simp only [names, inputs_append, statements_append, List.map_append, List.mem_append]
  exact or_or_or_comm

section Read

variable {n : Bool}

theorem assemble_ok {ms : Members} {s : Slots} {b : Block} (h : assemble n ms s = .ok b) :
    ∃ type fields, b = .mk type fields s.statements s.inputs := by
  unfold assemble at h
  obtain ⟨type, _, h⟩ := bind_eq_ok h
  obtain ⟨fields, _, h⟩ := bind_eq_ok h
  cases h
  exact ⟨type, fields, rfl⟩

theorem everywhere_assemble {ms : Members} {s : Slots} {b : Block} (hs : s.AreNeat)
    (h : assemble n ms s = .ok b) : b.Everywhere AreNeat := by
  obtain ⟨type, fields, rfl⟩ := assemble_ok h
  exact ⟨hs.names, hs.statements, hs.inputs⟩

-- What each part of the reader can find.

theorem chain_ok {v : Value} {bs : List Block} (h : chain n v = .ok bs) :
    bs = [] ∨ ∃ ms s b cs, v = .object ms ∧ slotsOf n ms = .ok s ∧ assemble n ms s = .ok b ∧
      following n ms = .ok cs ∧ bs = b :: cs := by
  unfold chain at h
  split at h
  · cases h
    exact .inl rfl
  · split at h
    · obtain ⟨s, hs, h⟩ := bind_eq_ok h
      obtain ⟨b, hb, h⟩ := bind_eq_ok h
      obtain ⟨cs, hc, h⟩ := bind_eq_ok h
      cases h
      exact .inr ⟨_, s, b, cs, rfl, hs, hb, hc, rfl⟩
    · cases h
  · cases h

theorem single_ok {v : Value} {b : Block} (h : single n v = .ok b) :
    ∃ ms s, v = .object ms ∧ slotsOf n ms = .ok s ∧ assemble n ms s = .ok b := by
  unfold single at h
  split at h
  · split at h
    · obtain ⟨s, hs, h⟩ := bind_eq_ok h
      exact ⟨_, s, rfl, hs, h⟩
    · cases h
  · cases h

variable {k : Key} {v : Value} {ms : Members}

theorem following_ok {bs : List Block} (h : following n ((k, v) :: ms) = .ok bs) :
    bs = [] ∨ (∃ ws, v = .object ws ∧ linked n ws = .ok bs) ∨ following n ms = .ok bs := by
  rw [following.eq_def] at h
  dsimp only at h
  split at h
  · split at h
    · exact .inr (.inl ⟨_, rfl, h⟩)
    · cases h
      exact .inl rfl
  · exact .inr (.inr h)

theorem linked_ok {bs : List Block} (h : linked n ((k, v) :: ms) = .ok bs) :
    chain n v = .ok bs ∨ linked n ms = .ok bs := by
  rw [linked.eq_def] at h
  dsimp only at h
  split at h
  · exact .inl h
  · exact .inr h

theorem slotsOf_ok {s : Slots} (h : slotsOf n ((k, v) :: ms) = .ok s) :
    s = .empty ∨ (∃ ws, v = .object ws ∧ slotsFrom n ws = .ok s) ∨ slotsOf n ms = .ok s := by
  rw [slotsOf.eq_def] at h
  dsimp only at h
  split at h
  · split at h
    · exact .inr (.inl ⟨_, rfl, h⟩)
    · split at h
      · cases h
      · cases h
        exact .inl rfl
  · exact .inr (.inr h)

theorem found_ok {slot : Key} {s : Slots} (h : found n slot v = .ok s) :
    s = .empty ∨ ∃ ws, v = .object ws ∧ slotContent n slot.plain ws = .ok s := by
  unfold found at h
  split at h
  · exact .inr ⟨_, rfl, h⟩
  · cases h
    exact .inl rfl

theorem slotContent_ok {slot : String} {s : Slots}
    (h : slotContent n slot ((k, v) :: ms) = .ok s) :
    s = .empty ∨ (∃ bs, chain n v = .ok bs ∧ s = ⟨[(slot, bs)], []⟩) ∨
      (∃ b, isStatementSlot slot = false ∧ single n v = .ok b ∧ s = ⟨[], [(slot, b)]⟩) ∨
      slotContent n slot ms = .ok s := by
  rw [slotContent.eq_def] at h
  dsimp only at h
  split at h
  · split at h
    · cases h
      exact .inl rfl
    · split at h
      · obtain ⟨bs, hb, h⟩ := bind_eq_ok h
        cases h
        exact .inr (.inl ⟨bs, hb, rfl⟩)
      · next hc =>
        obtain ⟨b, hb, h⟩ := bind_eq_ok h
        cases h
        have hslot : isStatementSlot slot = false := by
          rw [Bool.or_eq_true, not_or] at hc
          simpa using hc.2
        exact .inr (.inr (.inl ⟨b, hslot, hb, rfl⟩))
    · cases h
    · cases h
    · cases h
  · exact .inr (.inr (.inr h))

mutual
theorem chain_neat {v : Value} {bs : List Block} (hv : v.IsJson) (h : chain n v = .ok bs) :
    Block.EverywhereAmong AreNeat bs := by
  obtain rfl | ⟨ms, s, b, cs, rfl, hs, hb, hc, rfl⟩ := chain_ok h
  · trivial
  · exact ⟨everywhere_assemble (slotsOf_neat hv.2 hs) hb, following_neat hv.2 hc⟩
termination_by sizeOf v

theorem single_neat {v : Value} {b : Block} (hv : v.IsJson) (h : single n v = .ok b) :
    b.Everywhere AreNeat := by
  obtain ⟨ms, s, rfl, hs, hb⟩ := single_ok h
  exact everywhere_assemble (slotsOf_neat hv.2 hs) hb
termination_by sizeOf v

theorem following_neat {ms : Members} {bs : List Block} (hm : Value.HoldJson ms)
    (h : following n ms = .ok bs) : Block.EverywhereAmong AreNeat bs := by
  match ms with
  | [] => cases h; trivial
  | (k, v) :: ms =>
    obtain rfl | ⟨ws, rfl, hl⟩ | hf := following_ok h
    · trivial
    · exact linked_neat hm.2.1.2 hl
    · exact following_neat hm.2.2 hf
termination_by sizeOf ms

theorem linked_neat {ms : Members} {bs : List Block} (hm : Value.HoldJson ms)
    (h : linked n ms = .ok bs) : Block.EverywhereAmong AreNeat bs := by
  match ms with
  | [] => cases h; trivial
  | (k, v) :: ms =>
    rcases linked_ok h with h | h
    · exact chain_neat hm.2.1 h
    · exact linked_neat hm.2.2 h
termination_by sizeOf ms

theorem slotsOf_neat {ms : Members} {s : Slots} (hm : Value.HoldJson ms)
    (h : slotsOf n ms = .ok s) : s.AreNeat := by
  match ms with
  | [] => cases h; exact (Slots.empty_neat "").1
  | (k, v) :: ms =>
    obtain rfl | ⟨ws, rfl, hf⟩ | hs := slotsOf_ok h
    · exact (Slots.empty_neat "").1
    · exact (slotsFrom_neat hm.2.1.1 hm.2.1.2 hf).1
    · exact slotsOf_neat hm.2.2 hs
termination_by sizeOf ms

theorem slotsFrom_neat {ms : Members} {s : Slots} (hn : (ms.map (·.1)).Nodup)
    (hm : Value.HoldJson ms) (h : slotsFrom n ms = .ok s) :
    s.AreNeat ∧ ∀ x ∈ s.names, Key.text x ∈ ms.map (·.1) := by
  match ms with
  | [] => cases h; exact ⟨(Slots.empty_neat "").1, by simp [Slots.names, Slots.empty]⟩
  | (k, v) :: ms =>
    obtain ⟨⟨slot, rfl⟩, hv, hrest⟩ := hm
    obtain ⟨hslot, hn⟩ := List.nodup_cons.mp hn
    rw [slotsFrom_eq] at h
    obtain ⟨t, ht, h⟩ := bind_eq_ok h
    obtain ⟨u, hu, h⟩ := bind_eq_ok h
    cases h
    obtain ⟨hneat, hnames⟩ := slotsFrom_neat hn hrest hu
    have hfound : t.AreNeat ∧ ∀ x ∈ t.names, x = slot := by
      obtain rfl | ⟨ws, rfl, ht⟩ := found_ok ht
      · exact Slots.empty_neat slot
      · exact slotContent_neat hv.2 ht
    refine ⟨hfound.1.append hneat ?_, ?_⟩
    · intro x hx hy
      rw [hfound.2 x hx] at hy
      exact hslot (hnames slot hy)
    · intro x hx
      rcases Slots.mem_names_append.mp hx with hx | hx
      · simp [hfound.2 x hx]
      · exact List.mem_cons_of_mem _ (hnames x hx)
termination_by sizeOf ms

theorem slotContent_neat {slot : String} {ms : Members} {s : Slots} (hm : Value.HoldJson ms)
    (h : slotContent n slot ms = .ok s) : s.AreNeat ∧ ∀ x ∈ s.names, x = slot := by
  match ms with
  | [] => cases h; exact Slots.empty_neat slot
  | (k, v) :: ms =>
    obtain rfl | ⟨bs, hb, rfl⟩ | ⟨b, hs, hb, rfl⟩ | hc := slotContent_ok h
    · exact Slots.empty_neat slot
    · exact Slots.sequence_neat slot (chain_neat hm.2.1 hb)
    · exact Slots.single_neat hs (single_neat hm.2.1 hb)
    · exact slotContent_neat hm.2.2 hc
termination_by sizeOf ms
end

/-- What the entries of a document stand in. -/
def workspace (document : Value) : Value :=
  match document with
  | .object ms =>
    match Json.lookup ms "blocks" with
    | some (.object ws) => (Json.lookup ws "blocks").getD (.list [])
    | some v => v
    | none => document
  | v => v

theorem workspace_json {d : Value} (hd : d.IsJson) : (workspace d).IsJson := by
  unfold workspace
  split
  · split
    · next ws hl =>
      have hw := hd.2.lookup hl
      cases hb : Json.lookup ws (Key.text "blocks") with
      | none => exact (trivial : (Value.list []).IsJson)
      | some v => exact hw.2.lookup hb
    · next v _ hl => exact hd.2.lookup hl
    · exact hd
  · exact hd

/-- The entries of a document are parts of it. -/
theorem entries_json {d : Value} {vs : List Value} (hd : d.IsJson) (h : entries? d = some vs) :
    ∀ v ∈ vs, v.IsJson := by
  have hs := workspace_json hd
  unfold entries? at h
  dsimp only at h
  split at h
  · next ms hm =>
    have hw : workspace d = .object ms := hm
    cases h
    intro v hv
    rw [List.mem_singleton.mp hv, ← hw]
    exact hs
  · next ws hl =>
    have hw : workspace d = .list ws := hl
    cases h
    rw [hw] at hs
    exact Value.AreJson.mem hs
  · cases h

/-- Programs that are read from JSON documents have slots that can be told apart. -/
theorem ofDocument_neat {d : Value} {p : Program} (hd : d.IsJson) (h : ofDocument n d = .ok p) :
    Block.EverywhereAmong AreNeat p := by
  unfold ofDocument at h
  split at h
  · next vs he =>
    obtain ⟨bss, hb, h⟩ := bind_eq_ok h
    cases h
    have hv := entries_json hd he
    exact everywhereAmong_flatten (forall_of_mapM (fun v hm bs => chain_neat (hv v hm)) hb)
  · cases h

end Read

end Program

end Courier
