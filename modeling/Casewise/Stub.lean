import Casewise.Analysis
import Casewise.Ty.Annotation

namespace Casewise.Stub

def declaration? (name : String) (s : Signature) : Option Ty.Annotation := do
  let params ← s.params.mapM fun (n, t) => do
    let a ← t.annotate?
    return (n ++ ": " ++ a.text, a.imports)
  let result ← s.returns.annotate?
  return ⟨"def " ++ name ++ "(" ++ ", ".intercalate (params.map (·.1)) ++ ") -> " ++ result.text ++ ": ...",
    params.flatMap (·.2) ++ result.imports⟩

def text? (r : AnalysisResult) : Option String := do
  let declarations ← r.signatures.mapM fun (n, s) => declaration? n s
  let imports := sortTexts (distinctTexts (declarations.flatMap (·.imports)))
  let importLine := if imports.isEmpty then [] else ["from typing import " ++ ", ".intercalate imports]
  let lines := ["# Generated by nudo from " ++ r.file] ++ importLine ++ [""] ++ declarations.map (·.text)
  return "\n".intercalate lines ++ "\n"

end Casewise.Stub
