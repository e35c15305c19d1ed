import Casewise.Symbolic.Exec

namespace Casewise.Symbolic

def machine (cfg : Setting) : Nat → Machine
  | 0 => ⟨cfg, fun _ _ => throw .exhausted, fun _ _ => throw .exhausted⟩
  | n + 1 => ⟨cfg, (machine cfg n).eval, (machine cfg n).execBlock⟩

structure Report where
  returns : Ty
  params : List Ty
  raises : List String
  returned : Bool

def Report.alwaysRaises (r : Report) : Bool := !r.returned && !r.raises.isEmpty

def runFunction (m : Machine) (name : String) (args : List Ty) : Run Report := do
  match m.module.functions.get? name with
  | none => throw (.noFunction name)
  | some f =>
    let env ← m.bind f.params f.name (args.map Value.type) [] .arity
    let params ← f.params.names.mapM fun n => m.force ((env.get? n).getD .unknown) f.pos
    let outcome ← m.callFunction f env 0
    return ⟨outcome.returns, params, outcome.raises, outcome.returned⟩

/-- Nested jumps that are followed; a program that needs more is given up. -/
def fuel : Nat := 400

def given (cfg : Setting) (args : List Ty) : StateM Mark (Setting × List Ty) := do
  let args ← args.mapM fun t => t.mapNumbers Number.mark
  let mocks ← cfg.mocks.mapNumbers Number.mark
  return ({ cfg with mocks }, args)

def runWithin (jumps : Nat) (cfg : Setting) (name : String) (args : List Ty) : Except Stop Report × List Diagnostic :=
  let ((cfg, args), supply) := (given cfg args).run ⟨cfg.number, 0⟩
  let (result, session) := (runFunction (machine cfg jumps) name args).run { supply }
  (result, session.diagnostics)

def run (cfg : Setting) (name : String) (args : List Ty) : Except Stop Report × List Diagnostic :=
  runWithin fuel cfg name args

end Casewise.Symbolic
