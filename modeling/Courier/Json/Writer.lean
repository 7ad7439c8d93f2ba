import Courier.Json.Value

namespace Courier.Json

/-- An escape by code unit; a character beyond the first plane takes a surrogate pair. -/
def escapeUnits (c : Char) : List Char :=
  if c.toNat < 0x10000 then '\\' :: 'u' :: Text.hex 4 c.toNat
  else
    let n := c.toNat - 0x10000
    ['\\', 'u'] ++ Text.hex 4 (0xd800 + n / 0x400) ++ ['\\', 'u'] ++ Text.hex 4 (0xdc00 + n % 0x400)

/-- A character inside quotes; `ascii` escapes whatever is not printable ASCII. -/
def escapeChar (ascii : Bool) (c : Char) : List Char :=
  match c with
  | '"' => ['\\', '"']
  | '\\' => ['\\', '\\']
  | '\n' => ['\\', 'n']
  | '\r' => ['\\', 'r']
  | '\t' => ['\\', 't']
  | '\x08' => ['\\', 'b']
  | '\x0c' => ['\\', 'f']
  | c => if c.toNat < 0x20 || (ascii && 0x7e < c.toNat) then escapeUnits c else [c]

def writeText (ascii : Bool) (s : String) : String :=
  String.ofList ('"' :: s.toList.flatMap (escapeChar ascii) ++ ['"'])

def writeNumber : Number → String
  | .int i => toString i
  | .float .nan => "NaN"
  | .float (.infinite s) => if s then "-Infinity" else "Infinity"
  | .float x => x.text

def keyText : Key → String
  | .null => "null"
  | .bool b => if b then "true" else "false"
  | .number n => writeNumber n
  | .text s => s

def indent (depth : Nat) : String :=
  String.ofList ('\n' :: List.replicate (2*depth) ' ')

mutual
def writeAt (ascii : Bool) (depth : Nat) : Value → String
  | .null => "null"
  | .bool b => if b then "true" else "false"
  | .number n => writeNumber n
  | .text s => writeText ascii s
  | .list [] => "[]"
  | .list (v :: vs) =>
    "[" ++ indent (depth+1) ++ writeAt ascii (depth+1) v ++ writeItems ascii (depth+1) vs
      ++ indent depth ++ "]"
  | .object [] => "\x7b\x7d"
  | .object ((k, v) :: ms) =>
    "\x7b" ++ indent (depth+1) ++ writeText ascii (keyText k) ++ ": " ++ writeAt ascii (depth+1) v
      ++ writeMembers ascii (depth+1) ms ++ indent depth ++ "\x7d"

def writeItems (ascii : Bool) (depth : Nat) : List Value → String
  | [] => ""
  | v :: vs => "," ++ indent depth ++ writeAt ascii depth v ++ writeItems ascii depth vs

def writeMembers (ascii : Bool) (depth : Nat) : List (Key × Value) → String
  | [] => ""
  | (k, v) :: ms =>
    "," ++ indent depth ++ writeText ascii (keyText k) ++ ": " ++ writeAt ascii depth v
      ++ writeMembers ascii depth ms
end

def write (ascii : Bool) (v : Value) : String := writeAt ascii 0 v

end Courier.Json
