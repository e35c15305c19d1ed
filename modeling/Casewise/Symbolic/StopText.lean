import Casewise.Symbolic.Session

namespace Casewise

def tupleText (items : List String) : String :=
  match items with
  | [item] => "(" ++ item ++ ",)"
  | items => "(" ++ ", ".intercalate items ++ ")"

namespace Ty

mutual

def dump : Ty → String
  | .primitive p => "Primitive(name=" ++ Text.literal p.name ++ ")"
  | .literal s =>
    "Literal(value=" ++ (s.literal?).getD "" ++ ", primitive=" ++ Text.literal s.primitive.name ++ ")"
  | .oneOf ms => "Union(members=frozenset(\x7b" ++ ", ".intercalate (dumpAll ms) ++ "\x7d))"
  | .object fs => "ObjectType(fields=" ++ tupleText (dumpFields fs) ++ ")"
  | .array e => "ArrayType(element=" ++ dump e ++ ")"
  | .tuple es => "TupleType(elements=" ++ tupleText (dumpAll es) ++ ")"
  | .function ps r => "FunctionType(params=" ++ tupleText (dumpAll ps) ++ ", returns=" ++ dump r ++ ")"
  | .unknown => "UnknownType()"
  | .never => "NeverType()"
  | .throws e => "Throws(exception=" ++ (e.map Text.literal).getD "None" ++ ")"

def dumpAll : List Ty → List String
  | [] => []
  | t :: ts => dump t :: dumpAll ts

def dumpFields : List (String × Ty) → List String
  | [] => []
  | (k, t) :: fs => tupleText [Text.literal k, dump t] :: dumpFields fs

end

end Ty

namespace Value

def dump : Value → String
  | .type t => t.dump
  | .external w p => "External(written=" ++ Text.literal w ++ ", path=" ++ Text.literal p ++ ")"
  | .function n _ => "FunctionRef(name=" ++ Text.literal n ++ ")"
  | .builtin n => "BuiltinRef(name=" ++ Text.literal n ++ ")"
  | .method r n t =>
    "MethodRef(receiver=" ++ r.dump ++ ", name=" ++ Text.literal n ++ ", target=" ++
      (t.map Text.literal).getD "None" ++ ")"
  | .closure .. => "Closure()"

end Value

namespace Symbolic

def Call.dump (c : Call) : String :=
  tupleText [Text.literal c.function, tupleText (c.env.map fun (n, v) => tupleText [Text.literal n, v.dump])]

def tooLongText : String :=
  "Exceeds the limit (" ++ toString digitLimit ++ " digits) for integer string conversion; " ++
    "use sys.set_int_max_str_digits() to increase the limit"

def Stop.note : Stop → String
  | .undefined cause _ => "SymbolicTypeError: " ++ cause.message
  | .tooLong => "ValueError: " ++ tooLongText
  | .outOfMemory => "MemoryError: "
  | .arity e => "ArityError: " ++ e.message
  | .unreachable => "_Unreachable: "
  | .noFunction n => "KeyError: " ++ Text.literal n
  | .noRounds call => "KeyError: " ++ call.dump
  | .exhausted => "RecursionError: maximum recursion depth exceeded"

end Symbolic

end Casewise
