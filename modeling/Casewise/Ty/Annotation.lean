import Casewise.Ty.Depth
import Casewise.Ty.Name

namespace Casewise.Ty

structure Annotation where
  text : String
  imports : List String

namespace Annotation

def plain (text : String) : Annotation := ⟨text, []⟩

def imported (name : String) : Annotation := ⟨name, [name]⟩

def ofPrimitive : Primitive → String
  | .number => "float"
  | .string => "str"
  | .boolean => "bool"
  | .null => "None"
  | .undefined => "None"

def wrap (before : String) (parts : List Annotation) (after : String) : Annotation :=
  ⟨before ++ ", ".intercalate (parts.map (·.text)) ++ after, parts.flatMap (·.imports)⟩

def alternatives (parts : List Annotation) : Annotation :=
  let texts := distinctTexts (parts.map (·.text))
  let sorted := texts.filter (· != "None") ++ texts.filter (· == "None")
  ⟨" | ".intercalate sorted, parts.flatMap (·.imports)⟩

end Annotation

open Annotation

def annotateSingle (annotate : Ty → Option Annotation) : Ty → Option Annotation
  | .primitive p => some (plain (ofPrimitive p))
  | .literal s => s.literal?.map fun t => ⟨"Literal[" ++ t ++ "]", ["Literal"]⟩
  | .array .never => some ⟨"list[Any]", ["Any"]⟩
  | .array e => do return wrap "list[" [← annotate e] "]"
  | .tuple [] => some (plain "tuple[()]")
  | .tuple es => do return wrap "tuple[" (← es.mapM annotate) "]"
  | .object fs =>
    match union (fs.map fun f => f.2.stripUndefined) with
    | .never => some ⟨"dict[str, Any]", ["Any"]⟩
    | values => do return wrap "dict[str, " [← annotate values] "]"
  | .function ps r => do
    let params ← ps.mapM annotate
    let result ← annotate r
    return ⟨(wrap "Callable[[" params "], ").text ++ result.text ++ "]",
      "Callable" :: params.flatMap (·.imports) ++ result.imports⟩
  | .never => some (imported "NoReturn")
  | .throws _ => some (imported "NoReturn")
  | _ => some (imported "Any")

def annotateMembers (rule : Ty → Option Annotation) : Ty → Option Annotation
  | .oneOf ms => do
    let sorted ← sortedMembers? (.oneOf ms)
    return alternatives (← sorted.mapM rule)
  | t => rule t

def annotateTo : Nat → Ty → Option Annotation
  | 0 => annotateMembers (annotateSingle fun _ => some (imported "Any"))
  | n + 1 => annotateMembers (annotateSingle (annotateTo n))

def annotate? (t : Ty) : Option Annotation := annotateTo t.depth t

end Casewise.Ty
