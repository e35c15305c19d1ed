import Casewise.Program.Stmt

namespace Casewise

namespace Expr

mutual

def calls : Expr → List String
  | .constant .. => []
  | .name .. => []
  | .binary _ _ l r => calls l ++ calls r
  | .unary _ _ e => calls e
  | .logical _ _ es => callsAll es
  | .comparison _ l rs => calls l ++ callsCompared rs
  | .conditional _ t b o => calls t ++ calls b ++ calls o
  | .call _ f as ks => f.dotted?.toList ++ calls f ++ callsAll as ++ callsKeywords ks
  | .member _ v _ => calls v
  | .subscript _ v i => calls v ++ calls i
  | .slice _ l u s => callsOption l ++ callsOption u ++ callsOption s
  | .tuple _ es => callsAll es
  | .list _ es => callsAll es
  | .set _ es => callsAll es
  | .dict _ es => callsEntries es
  | .template _ es => callsAll es
  | .formatted _ v s => calls v ++ callsOption s
  | .comprehension _ e gs => calls e ++ callsGenerators gs
  | .dictComprehension _ k v gs => calls k ++ calls v ++ callsGenerators gs
  | .lambda _ ps b => callsParams ps ++ calls b
  | .assign _ _ v => calls v
  | .starred _ v => calls v
  | .other _ es => callsAll es

def callsAll : List Expr → List String
  | [] => []
  | e :: es => calls e ++ callsAll es

def callsOption : Option Expr → List String
  | none => []
  | some e => calls e

def callsCompared : List (CompareOp × Expr) → List String
  | [] => []
  | (_, e) :: es => calls e ++ callsCompared es

def callsKeywords : List (Keyword Expr) → List String
  | [] => []
  | ⟨_, e⟩ :: es => calls e ++ callsKeywords es

def callsEntries : List (Option Expr × Expr) → List String
  | [] => []
  | (k, e) :: es => callsOption k ++ calls e ++ callsEntries es

def callsGenerators : List (Generator Expr) → List String
  | [] => []
  | ⟨t, s, cs⟩ :: gs => calls t ++ calls s ++ callsAll cs ++ callsGenerators gs

def callsParams : Params Expr → List String
  | ⟨_, _, ds, _, ks, _, as⟩ => callsAll ds ++ callsNamed ks ++ callsAll as

def callsNamed : List (String × Option Expr) → List String
  | [] => []
  | (_, e) :: es => callsOption e ++ callsNamed es

end

end Expr

namespace Pattern

mutual

def calls : Pattern → List String
  | .value e => e.calls
  | .single _ => []
  | .sequence ps => callsAll ps
  | .mapping es _ => callsEntries es
  | .object c ps => c.calls ++ callsAll ps
  | .star _ => []
  | .capture p _ => callsOption p
  | .alternatives ps => callsAll ps

def callsAll : List Pattern → List String
  | [] => []
  | p :: ps => calls p ++ callsAll ps

def callsOption : Option Pattern → List String
  | none => []
  | some p => calls p

def callsEntries : List (Expr × Pattern) → List String
  | [] => []
  | (e, p) :: es => e.calls ++ calls p ++ callsEntries es

end

end Pattern

namespace Stmt

mutual

def calls : Stmt → List String
  | .expr _ e => e.calls
  | .assign _ ts v => Expr.callsAll ts ++ v.calls
  | .augmented _ t _ v => t.calls ++ v.calls
  | .annotated _ t a v => t.calls ++ a.calls ++ Expr.callsOption v
  | .returns _ v => Expr.callsOption v
  | .branch _ t b o => t.calls ++ callsAll b ++ callsAll o
  | .forLoop _ t s b o => t.calls ++ s.calls ++ callsAll b ++ callsAll o
  | .whileLoop _ t b o => t.calls ++ callsAll b ++ callsAll o
  | .raising _ e c => Expr.callsOption e ++ Expr.callsOption c
  | .trying _ b hs o f => callsAll b ++ callsHandlers hs ++ callsAll o ++ callsAll f
  | .asserting _ t m => t.calls ++ Expr.callsOption m
  | .breaking _ => []
  | .continuing _ => []
  | .function d => callsFunction d
  | .asyncFunction d => callsFunction d
  | .classDef _ _ es b => Expr.callsAll es ++ callsAll b
  | .withBlock _ is b => (is.flatMap fun i => i.1.calls ++ Expr.callsOption i.2) ++ callsAll b
  | .matching _ s as => s.calls ++ callsArms as
  | .delete _ ts => Expr.callsAll ts
  | .importing .. => []
  | .other _ es b => Expr.callsAll es ++ callsAll b

def callsAll : List Stmt → List String
  | [] => []
  | s :: ss => calls s ++ callsAll ss

def callsFunction : FunctionDef Stmt → List String
  | ⟨_, _, ps, b, ds, as⟩ => Expr.callsParams ps ++ callsAll b ++ Expr.callsAll ds ++ Expr.callsAll as

def callsHandlers : List (Handler Stmt) → List String
  | [] => []
  | ⟨e, _, b⟩ :: hs => Expr.callsOption e ++ callsAll b ++ callsHandlers hs

def callsArms : List (Arm Stmt) → List String
  | [] => []
  | ⟨p, g, b⟩ :: as => p.calls ++ Expr.callsOption g ++ callsAll b ++ callsArms as

end

end Stmt

def Program.calledNames (p : Program) : List String := sortTexts (distinctTexts (Stmt.callsAll p.body))

end Casewise
