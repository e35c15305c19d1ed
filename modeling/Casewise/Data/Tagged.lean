import Casewise.Data.Json

/-!
Data in which numbers carry their kind: an integer or a double is a record with its text, and a record with entries
in order is a list of pairs. Files and messages hold data in this form, since plain numbers do not tell `1` and `1.0`
apart everywhere.
-/

namespace Casewise.Tagged

def sign (cs : List Char) : Bool × List Char :=
  match cs with
  | '-' :: rest => (true, rest)
  | rest => (false, rest)

def integer (s : String) : Int :=
  let (negative, cs) := sign s.toList
  let n := match cs with
    | '0' :: 'x' :: rest => (Json.unit? rest).getD 0
    | rest => (Numeral.digits? rest).getD 0
  if negative then -(n : Int) else n

def float (s : String) : Float :=
  let (negative, cs) := sign s.toList
  let x :=
    if cs = "inf".toList then Binary.signed false Binary.infinityBits
    else if cs = "nan".toList then 0.0 / 0.0
    else (Numeral.float? cs).getD 0.0
  if negative then -x else x

mutual

def plain : Datum → Datum
  | .record [("int", .scalar (.string s))] => .int (integer s)
  | .record [("float", .scalar (.string s))] => .scalar (.number (.ofFloat (float s)))
  | .record [("dict", .list ps)] => .record (plainPairs ps)
  | .record fs => .record (plainFields fs)
  | .list ds => .list (plainItems ds)
  | d => d

def plainItems : List Datum → List Datum
  | [] => []
  | d :: ds => plain d :: plainItems ds

def plainFields : List (String × Datum) → List (String × Datum)
  | [] => []
  | (k, d) :: fs => (k, plain d) :: plainFields fs

def plainPairs : List Datum → List (String × Datum)
  | [] => []
  | .list [.scalar (.string k), d] :: ps => (k, plain d) :: plainPairs ps
  | _ :: ps => plainPairs ps

end

end Casewise.Tagged
