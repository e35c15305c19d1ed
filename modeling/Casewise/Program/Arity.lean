namespace Casewise

inductive ArityError where
  | surplus (function : String) (expected given : Nat)
  | repeated (function name : String)
  | unexpected (function name : String)
  | missing (function : String) (names : List String)
  | missingKeyword (function name : String)
  deriving DecidableEq, Repr

namespace ArityError

def plural (n : Nat) (word : String) : String :=
  toString n ++ " " ++ word ++ (if n = 1 then "" else "s")

def quoted (name : String) : String := "'" ++ name ++ "'"

def listed : List String → String
  | [] => ""
  | [name] => quoted name
  | names => ", ".intercalate (names.dropLast.map quoted) ++ " and " ++ quoted ((names.getLast?).getD "")

def message : ArityError → String
  | .surplus f expected given =>
    f ++ "() takes " ++ plural expected "positional argument" ++ " but " ++ toString given ++ " were given"
  | .repeated f n => f ++ "() got multiple values for argument " ++ quoted n
  | .unexpected f n => f ++ "() got an unexpected keyword argument " ++ quoted n
  | .missing f ns =>
    f ++ "() missing " ++ plural ns.length "required positional argument" ++ ": " ++ listed ns
  | .missingKeyword f n => f ++ "() missing 1 required keyword-only argument: " ++ quoted n

end ArityError

end Casewise
