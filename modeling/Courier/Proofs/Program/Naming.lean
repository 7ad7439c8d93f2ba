import Courier.Program.Document

namespace Courier

namespace Json

variable {α : Type} {members : List (Key × α)}

theorem Key.beq_text {k : Key} {s : String} : (k == Key.text s) = decide (k = .text s) := by
  cases k <;> simp [BEq.beq, same, number?]

/-- A new key comes last. -/
theorem insert_fresh {s : String} (hs : ∀ m ∈ members, m.1 ≠ .text s) (v : α) :
    insert members (.text s) v = members ++ [(.text s, v)] := by
  have hany : members.any (fun m => m.1 == Key.text s) = false := by
    rw [List.any_eq_false]
    intro m hm
    simpa [Key.beq_text] using hs m hm
  simp [insert, insertBy, hany]

end Json

namespace Program

open Json (Key Value Members)

/-- Input slots as they are written. -/
def inputMembers (inputs : List (String × Block)) : Members :=
  inputs.map (fun s => (.text s.1, wrapped (.object (entry s.2))))

/-- Statement slots as they are written. -/
def statementMembers (statements : List (String × List Block)) : Members :=
  statements.filterMap (fun s => (chainEntry s.2).map (fun head => (.text s.1, wrapped head)))

/-- No name is a key yet. -/
def AreNew (names : List String) (slots : Members) : Prop :=
  ∀ m ∈ slots, ∀ s ∈ names, m.1 ≠ .text s

theorem AreNew.concat {slot : String} {names : List String} {slots : Members}
    (hn : AreNew (slot :: names) slots) (hslot : slot ∉ names) (v : Value) :
    AreNew names (slots ++ [(.text slot, v)]) := by
  intro m hm s hs he
  rcases List.mem_append.mp hm with hm | hm
  · exact hn m hm s (List.mem_cons_of_mem _ hs) he
  · rw [List.mem_singleton.mp hm] at he
    cases he
    exact hslot hs

theorem AreNew.tail {slot : String} {names : List String} {slots : Members}
    (hn : AreNew (slot :: names) slots) : AreNew names slots :=
  fun m hm s hs => hn m hm s (List.mem_cons_of_mem _ hs)

theorem AreNew.head {slot : String} {names : List String} {slots : Members}
    (hn : AreNew (slot :: names) slots) : ∀ m ∈ slots, m.1 ≠ .text slot :=
  fun m hm => hn m hm slot List.mem_cons_self

theorem inputEntries_eq {slots : Members} {inputs : List (String × Block)}
    (hn : (inputs.map (·.1)).Nodup) (hs : AreNew (inputs.map (·.1)) slots) :
    inputEntries slots inputs = slots ++ inputMembers inputs := by
  induction inputs generalizing slots with
  | nil => simp [inputEntries, inputMembers]
  | cons r rest ih =>
    obtain ⟨slot, b⟩ := r
    obtain ⟨hslot, hrest⟩ := List.nodup_cons.mp hn
    rw [inputEntries, Json.insert_fresh hs.head, ih hrest (hs.concat hslot _)]
    simp [inputMembers]

theorem slotEntries_eq {slots : Members} {statements : List (String × List Block)}
    (hn : (statements.map (·.1)).Nodup) (hs : AreNew (statements.map (·.1)) slots) :
    slotEntries slots statements = slots ++ statementMembers statements := by
  induction statements generalizing slots with
  | nil => simp [slotEntries, statementMembers]
  | cons r rest ih =>
    obtain ⟨slot, bs⟩ := r
    obtain ⟨hslot, hrest⟩ := List.nodup_cons.mp hn
    unfold slotEntries
    cases hc : chainEntry bs with
    | none => simpa [statementMembers, hc] using ih hrest hs.tail
    | some head =>
      dsimp only
      rw [Json.insert_fresh hs.head, ih hrest (hs.concat hslot _)]
      simp [statementMembers, hc]

end Program

-- A property of the names of statement slots and of input slots.

section Everywhere

variable (P : List String → List String → Prop)

mutual
/-- The property holds for a block and for all inside it. -/
def Block.Everywhere : Block → Prop
  | .mk _ _ statements inputs =>
    P (statements.map (·.1)) (inputs.map (·.1)) ∧ Block.EverywhereIn statements ∧
      Block.EverywhereUnder inputs

def Block.EverywhereIn : List (String × List Block) → Prop
  | [] => True
  | (_, bs) :: rest => Block.EverywhereAmong bs ∧ Block.EverywhereIn rest

def Block.EverywhereUnder : List (String × Block) → Prop
  | [] => True
  | (_, b) :: rest => Block.Everywhere b ∧ Block.EverywhereUnder rest

def Block.EverywhereAmong : List Block → Prop
  | [] => True
  | b :: bs => Block.Everywhere b ∧ Block.EverywhereAmong bs
end

variable {P} {Q : List String → List String → Prop}

mutual
/-- A property may be weakened. -/
theorem Block.Everywhere.mono (hp : ∀ ss is, P ss is → Q ss is) {b : Block}
    (h : b.Everywhere P) : b.Everywhere Q := by
  match b with
  | .mk _ _ _ _ =>
    exact ⟨hp _ _ h.1, Block.EverywhereIn.mono hp h.2.1, Block.EverywhereUnder.mono hp h.2.2⟩

theorem Block.EverywhereIn.mono (hp : ∀ ss is, P ss is → Q ss is)
    {statements : List (String × List Block)} (h : Block.EverywhereIn P statements) :
    Block.EverywhereIn Q statements := by
  match statements with
  | [] => trivial
  | (_, _) :: _ => exact ⟨Block.EverywhereAmong.mono hp h.1, Block.EverywhereIn.mono hp h.2⟩

theorem Block.EverywhereUnder.mono (hp : ∀ ss is, P ss is → Q ss is)
    {inputs : List (String × Block)} (h : Block.EverywhereUnder P inputs) :
    Block.EverywhereUnder Q inputs := by
  match inputs with
  | [] => trivial
  | (_, _) :: _ => exact ⟨Block.Everywhere.mono hp h.1, Block.EverywhereUnder.mono hp h.2⟩

theorem Block.EverywhereAmong.mono (hp : ∀ ss is, P ss is → Q ss is) {bs : List Block}
    (h : Block.EverywhereAmong P bs) : Block.EverywhereAmong Q bs := by
  match bs with
  | [] => trivial
  | _ :: _ => exact ⟨Block.Everywhere.mono hp h.1, Block.EverywhereAmong.mono hp h.2⟩
end

end Everywhere

end Courier
