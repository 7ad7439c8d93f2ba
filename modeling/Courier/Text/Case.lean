namespace Courier.Text

/-- The capitals of a character; a character whose capitals are not ASCII stays. -/
def capitals (c : Char) : List Char :=
  match c.toNat with
  | 0x131 => ['I']
  | 0x17f => ['S']
  | 0xdf => ['S', 'S']
  | 0xfb00 => ['F', 'F']
  | 0xfb01 => ['F', 'I']
  | 0xfb02 => ['F', 'L']
  | 0xfb03 => ['F', 'F', 'I']
  | 0xfb04 => ['F', 'F', 'L']
  | 0xfb05 => ['S', 'T']
  | 0xfb06 => ['S', 'T']
  | _ => [c.toUpper]

def upper (s : String) : String :=
  String.ofList (s.toList.flatMap capitals)

def lowerAscii (s : String) : String :=
  String.ofList (s.toList.map Char.toLower)

/-- Whether two characters are the same letter in any case. The dotted and dotless i, the long s and
the kelvin sign are cases of ASCII letters. -/
def sameLetter (letter c : Char) : Bool :=
  fold letter = fold c
where
  fold (c : Char) : Char :=
    match c.toNat with
    | 0x130 => 'i'
    | 0x131 => 'i'
    | 0x17f => 's'
    | 0x212a => 'k'
    | _ => c.toLower

end Courier.Text
