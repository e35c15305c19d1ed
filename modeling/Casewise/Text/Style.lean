namespace Casewise.Text

def isStyleParameter (c : Char) : Bool := c == ';' || c == '?' || ('0' ≤ c && c ≤ '9')

def styleLength? : List Char → Option Nat
  | '[' :: cs =>
    match cs.dropWhile isStyleParameter with
    | c :: _ => if c.isAlpha then some ((cs.takeWhile isStyleParameter).length + 2) else none
    | [] => none
  | _ => none

def unstyledChars (cs : List Char) : List Char :=
  match cs with
  | [] => []
  | c :: rest =>
    if c.toNat = 27 then
      match styleLength? rest with
      | some n => unstyledChars (rest.drop n)
      | none => c :: unstyledChars rest
    else c :: unstyledChars rest
termination_by cs.length

def unstyled (s : String) : String := String.ofList (unstyledChars s.toList)

end Casewise.Text
