namespace Casewise.Builtin

def functions : List String :=
  ["abs", "all", "any", "bool", "callable", "chr", "dict", "divmod", "enumerate", "filter", "float", "format",
    "hasattr", "hash", "id", "int", "isinstance", "iter", "len", "list", "map", "max", "min", "next", "ord", "pow",
    "print", "range", "repr", "reversed", "round", "set", "sorted", "str", "sum", "tuple", "type", "zip"]

def exceptions : List String :=
  ["ArithmeticError", "AssertionError", "AttributeError", "BaseException", "BaseExceptionGroup", "BlockingIOError",
    "BrokenPipeError", "BufferError", "BytesWarning", "ChildProcessError", "ConnectionAbortedError",
    "ConnectionError", "ConnectionRefusedError", "ConnectionResetError", "DeprecationWarning", "EOFError",
    "EncodingWarning", "EnvironmentError", "Exception", "ExceptionGroup", "FileExistsError", "FileNotFoundError",
    "FloatingPointError", "FutureWarning", "GeneratorExit", "IOError", "ImportError", "ImportWarning",
    "IndentationError", "IndexError", "InterruptedError", "IsADirectoryError", "KeyError", "KeyboardInterrupt",
    "LookupError", "MemoryError", "ModuleNotFoundError", "NameError", "NotADirectoryError", "NotImplementedError",
    "OSError", "OverflowError", "PendingDeprecationWarning", "PermissionError", "ProcessLookupError",
    "RecursionError", "ReferenceError", "ResourceWarning", "RuntimeError", "RuntimeWarning", "StopAsyncIteration",
    "StopIteration", "SyntaxError", "SyntaxWarning", "SystemError", "SystemExit", "TabError", "TimeoutError",
    "TypeError", "UnboundLocalError", "UnicodeDecodeError", "UnicodeEncodeError", "UnicodeError",
    "UnicodeTranslateError", "UnicodeWarning", "UserWarning", "ValueError", "Warning", "ZeroDivisionError"]

def isException (name : String) : Bool := exceptions.contains name

def isKnown (name : String) : Bool := functions.contains name || isException name

def classes : List String :=
  ["bool", "bytearray", "bytes", "classmethod", "complex", "dict", "enumerate", "filter", "float", "frozenset", "int",
    "list", "map", "memoryview", "object", "property", "range", "reversed", "set", "slice", "staticmethod", "str",
    "super", "tuple", "type", "zip"]

def otherFunctions : List String :=
  ["aiter", "anext", "ascii", "bin", "breakpoint", "bytearray", "bytes", "classmethod", "compile", "complex",
    "copyright", "credits", "delattr", "dir", "eval", "exec", "exit", "frozenset", "getattr", "globals", "help", "hex",
    "input", "issubclass", "license", "locals", "memoryview", "object", "oct", "open", "property", "quit", "setattr",
    "slice", "staticmethod", "super", "vars", "__build_class__", "__import__"]

def otherValues : List (String × String) := [("Ellipsis", "ellipsis"), ("NotImplemented", "NotImplementedType")]

end Casewise.Builtin
