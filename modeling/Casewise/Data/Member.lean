import Casewise.Data.Bindings
import Casewise.Data.Scalar

namespace Casewise

inductive MemberKind where
  | method
  | data
  deriving DecidableEq, Repr

inductive MemberOwner where
  | text
  | list
  | tuple
  | int
  | float
  | dict
  deriving DecidableEq, Repr

namespace MemberOwner

def textMethods : List String :=
  ["capitalize", "casefold", "center", "count", "encode", "endswith", "expandtabs", "find", "format", "format_map",
    "index", "isalnum", "isalpha", "isascii", "isdecimal", "isdigit", "isidentifier", "islower", "isnumeric",
    "isprintable", "isspace", "istitle", "isupper", "join", "ljust", "lower", "lstrip", "maketrans", "partition",
    "removeprefix", "removesuffix", "replace", "rfind", "rindex", "rjust", "rpartition", "rsplit", "rstrip", "split",
    "splitlines", "startswith", "strip", "swapcase", "title", "translate", "upper", "zfill", "__len__"]

def listMethods : List String :=
  ["append", "clear", "copy", "count", "extend", "index", "insert", "pop", "remove", "reverse", "sort", "__len__"]

def tupleMethods : List String := ["count", "index", "__len__"]

def intMethods : List String :=
  ["as_integer_ratio", "bit_count", "bit_length", "conjugate", "from_bytes", "to_bytes"]

def floatMethods : List String := ["as_integer_ratio", "conjugate", "fromhex", "hex", "is_integer"]

def dictMethods : List String :=
  ["clear", "copy", "fromkeys", "get", "items", "keys", "pop", "popitem", "setdefault", "update", "values", "__len__"]

def methods : MemberOwner → List String
  | .text => textMethods
  | .list => listMethods
  | .tuple => tupleMethods
  | .int => intMethods
  | .float => floatMethods
  | .dict => dictMethods

def arithmetic : List String :=
  ["__abs__", "__add__", "__bool__", "__ceil__", "__divmod__", "__float__", "__floor__", "__floordiv__",
    "__getnewargs__", "__hash__", "__int__", "__mod__", "__mul__", "__neg__", "__pos__", "__pow__", "__radd__",
    "__rdivmod__", "__rfloordiv__", "__rmod__", "__rmul__", "__round__", "__rpow__", "__rsub__", "__rtruediv__",
    "__sub__", "__truediv__", "__trunc__"]

def bitwise : List String :=
  ["__and__", "__index__", "__invert__", "__lshift__", "__rand__", "__rlshift__", "__rrshift__", "__rshift__",
    "__rxor__", "__xor__"]

def sequential : List String := ["__add__", "__contains__", "__getitem__", "__iter__", "__mul__", "__rmul__"]

def changing : List String := ["__class_getitem__", "__delitem__", "__reversed__", "__setitem__"]

def operations : MemberOwner → List String
  | .text => sequential ++ ["__getnewargs__", "__hash__", "__mod__", "__rmod__"]
  | .list => sequential ++ changing ++ ["__iadd__", "__imul__"]
  | .tuple => sequential ++ ["__class_getitem__", "__getnewargs__", "__hash__"]
  | .int => arithmetic ++ bitwise
  | .float => arithmetic ++ ["__getformat__"]
  | .dict => changing ++ ["__contains__", "__getitem__", "__ior__", "__iter__"]

def classMethods : List String :=
  ["mro", "__base__", "__call__", "__class__", "__delattr__", "__dir__", "__eq__", "__format__", "__ge__",
    "__getattribute__", "__getstate__", "__gt__", "__init__", "__init_subclass__", "__instancecheck__", "__le__",
    "__lt__", "__ne__", "__new__", "__or__", "__prepare__", "__reduce__", "__reduce_ex__", "__repr__", "__ror__",
    "__setattr__", "__sizeof__", "__str__", "__subclasscheck__", "__subclasses__", "__subclasshook__"]

def classData : List String :=
  ["__bases__", "__basicsize__", "__dict__", "__dictoffset__", "__doc__", "__flags__", "__itemsize__", "__module__",
    "__mro__", "__name__", "__qualname__", "__text_signature__", "__weakrefoffset__"]

def dataMembers : MemberOwner → List String
  | .int => ["denominator", "imag", "numerator", "real"]
  | .float => ["imag", "real"]
  -- What can change has no hash.
  | .list => ["__hash__"]
  | .dict => ["__hash__"]
  | _ => []

def member? (o : MemberOwner) (name : String) : Option MemberKind :=
  if o.methods.contains name || o.operations.contains name || classMethods.contains name then some .method
  else if o.dataMembers.contains name || classData.contains name then some .data
  else none

end MemberOwner

namespace Scalar

def description : Scalar → String
  | .string _ => "\n".intercalate
    ["str(object='') -> str", "str(bytes_or_buffer[, encoding[, errors]]) -> str", "",
     "Create a new string object from the given object. If encoding or",
     "errors is specified, then the object must expose a data buffer",
     "that will be decoded using the given encoding and error handler.",
     "Otherwise, returns the result of object.__str__() (if defined)", "or repr(object).",
     "encoding defaults to sys.getdefaultencoding().", "errors defaults to 'strict'."]
  | .boolean _ => "\n".intercalate
    ["bool(x) -> bool", "", "Returns True when the argument x is true, False otherwise.",
     "The builtins True and False are the only two instances of the class bool.",
     "The class bool is a subclass of the class int, and cannot be subclassed."]
  | .number (.int _) => "\n".intercalate
    ["int([x]) -> integer", "int(x, base=10) -> integer", "",
     "Convert a number or string to an integer, or return 0 if no arguments",
     "are given.  If x is a number, return x.__int__().  For floating point", "numbers, this truncates towards zero.",
     "", "If x is not a number or if base is given, then x must be a string,",
     "bytes, or bytearray instance representing an integer literal in the",
     "given base.  The literal can be preceded by '+' or '-' and be surrounded",
     "by whitespace.  The base defaults to 10.  Valid bases are 0 and 2-36.",
     "Base 0 means to interpret the base from the string as an integer literal.", ">>> int('0b100', base=0)", "4"]
  | .number _ => "Convert a string or number to a floating point number, if possible."

def dataMember? (s : Scalar) (name : String) : Option Scalar :=
  match s.number?, name with
  | _, "__doc__" => some (.string s.description)
  | some n, "real" => some (.number n)
  | some (.int _), "imag" => some (.int 0)
  | some (.float _), "imag" => some (.number (.float 0.0))
  | some (.nan _), "imag" => some (.number (.float 0.0))
  | some (.int n), "numerator" => some (.int n)
  | some (.int _), "denominator" => some (.int 1)
  | _, _ => none

end Scalar

end Casewise
