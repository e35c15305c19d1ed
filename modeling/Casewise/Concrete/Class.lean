import Casewise.Concrete.Value
import Casewise.Data.Member
import Casewise.Program.Builtin

namespace Casewise.Concrete

/-- The members of a class by their kinds: those that are called with a value or with the class, and those that are
values, computed or stored. -/
structure ClassMembers where
  methods : List String := []
  shared : List String := []
  computed : List String := []
  stored : List String := []

namespace ClassMembers

def octets : List String :=
  ["capitalize", "center", "count", "decode", "endswith", "expandtabs", "find", "hex", "index", "isalnum", "isalpha",
    "isascii", "isdigit", "islower", "isspace", "istitle", "isupper", "join", "ljust", "lower", "lstrip", "partition",
    "removeprefix", "removesuffix", "replace", "rfind", "rindex", "rjust", "rpartition", "rsplit", "rstrip", "split",
    "splitlines", "startswith", "strip", "swapcase", "title", "translate", "upper", "zfill", "__len__"]

def fixedSet : List String :=
  ["copy", "difference", "intersection", "isdisjoint", "issubset", "issuperset", "symmetric_difference", "union", "__len__"]

def int : ClassMembers :=
  { methods := ["as_integer_ratio", "bit_count", "bit_length", "conjugate", "to_bytes"]
    shared := ["from_bytes"]
    computed := MemberOwner.int.dataMembers }

def ofValues : String → ClassMembers
  | "str" => { methods := MemberOwner.text.methods.erase "maketrans", shared := ["maketrans"] }
  | "list" => { methods := MemberOwner.list.methods }
  | "tuple" => { methods := MemberOwner.tuple.methods }
  | "dict" => { methods := MemberOwner.dict.methods.erase "fromkeys", shared := ["fromkeys"] }
  | "int" => int
  | "bool" => int
  | "float" =>
    { methods := MemberOwner.float.methods.erase "fromhex"
      shared := ["fromhex"]
      computed := MemberOwner.float.dataMembers }
  | "complex" => { methods := ["conjugate"], stored := ["imag", "real"] }
  | "bytes" => { methods := octets, shared := ["fromhex", "maketrans"] }
  | "bytearray" =>
    { methods := octets ++ ["append", "clear", "copy", "extend", "insert", "pop", "remove", "reverse"]
      shared := ["fromhex", "maketrans"] }
  | "frozenset" => { methods := fixedSet }
  | "set" =>
    { methods := fixedSet ++ ["add", "clear", "difference_update", "discard", "intersection_update", "pop", "remove",
        "symmetric_difference_update", "update"] }
  | "memoryview" =>
    { methods := ["cast", "hex", "release", "tobytes", "tolist", "toreadonly", "__len__"]
      computed := ["c_contiguous", "contiguous", "f_contiguous", "format", "itemsize", "nbytes", "ndim", "obj", "readonly",
        "shape", "strides", "suboffsets"] }
  | "property" => { methods := ["deleter", "getter", "setter"], stored := ["fdel", "fget", "fset"] }
  | "range" => { methods := ["count", "index", "__len__"], stored := ["start", "step", "stop"] }
  | "slice" => { methods := ["indices"], stored := ["start", "step", "stop"] }
  | "type" => { methods := ["mro"] }
  | _ => {}

def systemErrors : List String :=
  ["BlockingIOError", "BrokenPipeError", "ChildProcessError", "ConnectionAbortedError", "ConnectionError",
    "ConnectionRefusedError", "ConnectionResetError", "FileExistsError", "FileNotFoundError", "InterruptedError",
    "IsADirectoryError", "NotADirectoryError", "OSError", "PermissionError", "ProcessLookupError", "TimeoutError"]

def storedByException (cls : String) : List String :=
  if systemErrors.contains cls then ["errno", "filename", "filename2", "strerror"]
  else if ["SyntaxError", "IndentationError", "TabError"].contains cls then
    ["end_lineno", "end_offset", "filename", "lineno", "msg", "offset", "print_file_and_line", "text"]
  else if ["ImportError", "ModuleNotFoundError"].contains cls then ["msg", "name", "path"]
  else if ["UnicodeDecodeError", "UnicodeEncodeError", "UnicodeTranslateError"].contains cls then
    ["encoding", "end", "object", "reason", "start"]
  else match cls with
    | "AttributeError" => ["name", "obj"]
    | "NameError" => ["name"]
    | "UnboundLocalError" => ["name"]
    | "StopIteration" => ["value"]
    | "SystemExit" => ["code"]
    | "ExceptionGroup" => ["exceptions", "message"]
    | "BaseExceptionGroup" => ["exceptions", "message"]
    | _ => []

def isGroup (cls : String) : Bool := cls == "ExceptionGroup" || cls == "BaseExceptionGroup"

def ofExceptions (cls : String) : ClassMembers :=
  { methods := ["add_note", "with_traceback"] ++ (if isGroup cls then ["derive", "split", "subgroup"] else [])
    computed := "args" :: (if systemErrors.contains cls then ["characters_written"] else [])
    stored := storedByException cls }

def ofClass (cls : String) : ClassMembers := if Builtin.isException cls then ofExceptions cls else ofValues cls

def ofClass? (cls name : String) : Option Value :=
  let ms := ofClass cls
  if name = "__name__" then some (.text cls)
  else if ms.methods.contains name then some (.builtin .method name)
  else if ms.shared.contains name || name = "mro" then some (.builtin .function name)
  else if ms.computed.contains name then some (.builtin .computed name)
  else if ms.stored.contains name then some (.builtin .stored name)
  else none

end ClassMembers

end Casewise.Concrete
