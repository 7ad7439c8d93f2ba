import Courier.Fault

namespace Courier

/-- One block with everything nested in it. -/
inductive Block
  | mk (type : String) (fields : Json.Members)
    (statements : List (String × List Block)) (inputs : List (String × Block))

abbrev Program := List Block

namespace Block

instance : Inhabited Block := ⟨.mk "" [] [] []⟩

def type : Block → String
  | mk type _ _ _ => type

def fields : Block → Json.Members
  | mk _ fields _ _ => fields

def statements : Block → List (String × List Block)
  | mk _ _ statements _ => statements

def inputs : Block → List (String × Block)
  | mk _ _ _ inputs => inputs

/-- A block with fields only. No field is named `block_type`, which names the type itself. -/
def action (type : String) (fields : Json.Members) : Except Fault Block :=
  if (Json.lookup fields "block_type").isSome then .error (.shape .kind)
  else .ok (mk type fields [] [])

def repeatTimes (times : Json.Value) (body : List Block) : Block :=
  mk "repeat_n_times" [("TIMES", times)] [("DO", body)] []

def ifThen (condition : Option Block) (body : List Block) : Block :=
  mk "if_then" [] [("DO", body)]
    (match condition with
      | some c => [("CONDITION", c)]
      | none => [])

mutual
/-- Equality up to the order of fields and slots; the same NaN equals itself. -/
def same : Block → Block → Bool
  | mk t fs ss is, mk t' fs' ss' is' =>
    t = t' && Json.Value.equal true (.object fs) (.object fs')
      && ss.length = ss'.length && sameStatements ss ss'
      && is.length = is'.length && sameInputs is is'

def sameStatements : List (String × List Block) → List (String × List Block) → Bool
  | [], _ => true
  | (slot, bs) :: ss, ss' =>
    (match Json.lookup ss' slot with
      | some bs' => sameSequence bs bs'
      | none => false) && sameStatements ss ss'

def sameInputs : List (String × Block) → List (String × Block) → Bool
  | [], _ => true
  | (slot, b) :: is, is' =>
    (match Json.lookup is' slot with
      | some b' => same b b'
      | none => false) && sameInputs is is'

def sameSequence : List Block → List Block → Bool
  | [], [] => true
  | b :: bs, b' :: bs' => same b b' && sameSequence bs bs'
  | _, _ => false
end

end Block

end Courier
