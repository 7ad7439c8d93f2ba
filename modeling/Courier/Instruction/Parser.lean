import Courier.Instruction.Basic
import Courier.Fault
import Courier.Text.Lines
import Courier.Text.Case

namespace Courier.Instruction

open Text

/-- What a word matches at the head of a text, and the rest. -/
def takeWord (read : List Char) : List Char → List Char → Option (List Char × List Char)
  | [], cs => some (read.reverse, cs)
  | _ :: _, [] => none
  | l :: word, c :: cs => if sameLetter l c then takeWord (c :: read) word cs else none

/-- The rest after at least one blank. -/
def skipBlanks? (cs : List Char) : Option (List Char) :=
  match cs with
  | [] => none
  | c :: cs => if isBlank c then some (cs.dropWhile isBlank) else none

def signedDigits? (cs : List Char) : Option (Bool × List Nat) :=
  let (negative, cs) := Number.takeSign cs
  match cs.mapM digitValue? with
  | some [] => none
  | some ds => some (negative, ds)
  | none => none

/-- A word matched in some letter case names its operation only if its capitals are the word. -/
def checkWord (word : String) (matched : List Char) : Except Fault Unit :=
  let capitals := upper (String.ofList matched)
  if capitals = word then .ok () else .error (.opcode capitals)

/-- The count of a counted command, which is positive. -/
def readCount (opcode : Opcode) (text : String) (negative : Bool) (ds : List Nat) :
    Except Fault Nat :=
  if Number.maxDigits < ds.length then .error (.number (.tooManyDigits ds.length))
  else
    let n := ofDigits ds
    if negative || n = 0 then .error (.instruction (.countNotPositive opcode (-(n : Int)) text))
    else .ok n

/-- A text of the form word, blanks, count. -/
def readCounted? (text : String) (command : Nat → Command) : Option (Except Fault Command) := do
  let opcode := (command 0).opcode
  let (matched, rest) ← takeWord [] opcode.text.toList text.toList
  let (negative, ds) ← signedDigits? (← skipBlanks? rest)
  return do
    checkWord opcode.text matched
    return command (← readCount opcode text negative ds)

def readBare? (text : String) (command : Command) : Option (Except Fault Command) := do
  let (matched, rest) ← takeWord [] command.opcode.text.toList text.toList
  if rest.isEmpty then
    return do
      checkWord command.opcode.text matched
      return command
  else none

/-- Letters in any case and the underscore. -/
def isIdentifierStart (c : Char) : Bool :=
  c = '_' || c.isAlpha || [0x130, 0x131, 0x17f, 0x212a].contains c.toNat

def isIdentifier (cs : List Char) : Bool :=
  match cs with
  | [] => false
  | c :: cs => isIdentifierStart c && cs.all (fun c => isIdentifierStart c || c.isDigit)

def readBranch? (text : String) : Option Command := do
  let (_, rest) ← takeWord [] Opcode.branch.text.toList text.toList
  let name ← skipBlanks? rest
  if isIdentifier name then some (.branch (upper (String.ofList name))) else none

def readCommand (text : String) : Except Fault Command :=
  match Command.counted.findSome? (readCounted? text) with
  | some result => result
  | none =>
    match Command.bare.findSome? (readBare? text) with
    | some result => result
    | none =>
      match readBranch? text with
      | some command => .ok command
      | none => .error (.instruction (.unknown text))

def parse (line : String) : Except Fault Instruction := do
  let text := strip line
  return { text, command := ← readCommand text }

end Courier.Instruction
