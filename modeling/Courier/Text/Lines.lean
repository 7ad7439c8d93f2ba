import Courier.Text.Blank

namespace Courier.Text

def isLineEnd (c : Char) : Bool :=
  let n := c.toNat
  (10 ≤ n && n ≤ 13) || (0x1c ≤ n && n ≤ 0x1e) || n = 0x85 || n = 0x2028 || n = 0x2029

/-- Carriage returns, alone or before a line feed, become line feeds. -/
def unifyNewlines : List Char → List Char
  | [] => []
  | '\r' :: '\n' :: cs => '\n' :: unifyNewlines cs
  | '\r' :: cs => '\n' :: unifyNewlines cs
  | c :: cs => c :: unifyNewlines cs

/-- The lines of a text after `before`, already read from the first line; no line follows a final
boundary. -/
def linesAfter (before : List Char) : List Char → List (List Char)
  | [] => if before.isEmpty then [] else [before.reverse]
  | '\r' :: '\n' :: cs => before.reverse :: linesAfter [] cs
  | c :: cs =>
    if isLineEnd c then before.reverse :: linesAfter [] cs else linesAfter (c :: before) cs

def lines (cs : List Char) : List (List Char) :=
  linesAfter [] cs

/-- The lines that are not blank, each without the blanks at its ends. -/
def filledLines (s : String) : List String :=
  ((lines s.toList).map (trim isBlank)).filterMap
    (fun cs => if cs.isEmpty then none else some (String.ofList cs))

/-- The last line that is not blank, as it is. -/
def lastFilledLine (s : String) : String :=
  (((lines s.toList).filter (·.any (!isBlank ·))).getLast?.map String.ofList).getD ""

/-- Each text followed by a line feed. -/
def joinLines (ss : List String) : String :=
  String.join (ss.map (· ++ "\n"))

def ofFile (s : String) : String :=
  String.ofList (unifyNewlines s.toList)

end Courier.Text
