/-!
Lines of a text. Two rules are in use: the narrow one ends a line only at a newline, a carriage return,
or both together; the wide one also at the other characters that Unicode counts as line ends.
-/

namespace Casewise.Text

def isNarrowBreak (c : Char) : Bool := c == '\n' || c == '\r'

def isWideBreak (c : Char) : Bool :=
  [0xa, 0xb, 0xc, 0xd, 0x1c, 0x1d, 0x1e, 0x85, 0x2028, 0x2029].contains c.toNat

/-- Splits at each break; the second part of a pair of return and newline counts with the first.
`line` holds the reversed characters of the current line. -/
def splitAtBreaks (isBreak : Char → Bool) (line : List Char) : List Char → List (List Char)
  | [] => [line.reverse]
  | '\r' :: '\n' :: rest => line.reverse :: splitAtBreaks isBreak [] rest
  | c :: rest =>
    if isBreak c then line.reverse :: splitAtBreaks isBreak [] rest
    else splitAtBreaks isBreak (c :: line) rest

def narrowLines (cs : List Char) : List (List Char) := splitAtBreaks isNarrowBreak [] cs

def wideLines (cs : List Char) : List (List Char) :=
  let lines := splitAtBreaks isWideBreak [] cs
  if lines.getLast? == some [] then lines.dropLast else lines

end Casewise.Text
