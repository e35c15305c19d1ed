namespace Casewise

inductive CaseStatus where
  | pending
  | running
  | completed
  | failed
  | skipped
  deriving DecidableEq, Repr

namespace CaseStatus

def all : List CaseStatus := [.pending, .running, .completed, .failed, .skipped]

def name : CaseStatus → String
  | .pending => "pending"
  | .running => "running"
  | .completed => "completed"
  | .failed => "failed"
  | .skipped => "skipped"

def ofName? (n : String) : Option CaseStatus := all.find? (·.name == n)

def allows : CaseStatus → CaseStatus → Bool
  | .pending, .running => true
  | .pending, .skipped => true
  | .running, .completed => true
  | .running, .failed => true
  | _, _ => false

end CaseStatus

structure IllegalTransition where
  label : String
  before : CaseStatus
  after : CaseStatus
  deriving DecidableEq, Repr

namespace IllegalTransition

def message (e : IllegalTransition) : String :=
  "illegal case transition " ++ e.before.name ++ " -> " ++ e.after.name ++ " for '" ++ e.label ++ "'"

end IllegalTransition

def CaseStatus.move (label : String) (before after : CaseStatus) : Except IllegalTransition CaseStatus :=
  if before.allows after then .ok after else .error ⟨label, before, after⟩

end Casewise
