import ExamAdmission.Fault

/-! Runs: a result together with the events on the way to it. Events stay when the result is a
fault, and those of a later step follow those of an earlier one. -/

namespace ExamAdmission

inductive Severity where
  | debug
  | info
  | warning
deriving DecidableEq

def Severity.name : Severity → String
  | .debug => "debug"
  | .info => "info"
  | .warning => "warning"

inductive Target where
  | passCount (quota : Binary64)
  | points (total : Value)

/-- What is worth telling while rules are built and participants are checked. -/
inductive Event where
  | ruleBuilt (rule assignmentType : String) (relevant : Nat) (target : Target)
  | unknownAssignment (assessmentId assignmentId : Value) (rule : String)
  | statusComputed (participants admitted rules : Nat)
  | withoutParticipant (assessmentId : Value)

namespace Event

def severity : Event → Severity
  | .ruleBuilt .. => .debug
  | .unknownAssignment .. => .warning
  | .statusComputed .. => .info
  | .withoutParticipant .. => .warning

def name : Event → String
  | .ruleBuilt .. => "rule_built"
  | .unknownAssignment .. => "assessment_for_unknown_assignment"
  | .statusComputed .. => "admission_status_computed"
  | .withoutParticipant .. => "assessment_without_participant"

def fields : Event → List (String × Value)
  | .ruleBuilt rule assignmentType relevant target =>
    [("rule", .text rule), ("assignment_type", .text assignmentType), ("relevant", .int relevant),
     match target with
     | .passCount quota => ("required_pass_count", .float quota)
     | .points total => ("total_points", total)]
  | .unknownAssignment assessmentId assignmentId rule =>
    [("assessment_id", assessmentId), ("assignment_id", assignmentId), ("rule", .text rule)]
  | .statusComputed participants admitted rules =>
    [("participants", .int participants), ("admitted", .int admitted), ("rules", .int rules)]
  | .withoutParticipant assessmentId => [("assessment_id", assessmentId)]

def warning? : Event → Option String
  | .unknownAssignment assessmentId assignmentId _ =>
    some ("Assessment " ++ assessmentId.written ++ " references unknown assignment " ++
      assignmentId.written ++ "; excluded")
  | _ => none

end Event

structure Run (α : Type) where
  events : List Event
  result : Except Fault α

namespace Run

variable {α β : Type}

def ok (a : α) : Run α := ⟨[], .ok a⟩

def fail (e : Fault) : Run α := ⟨[], .error e⟩

def of (result : Except Fault α) : Run α := ⟨[], result⟩

def tell (event : Event) : Run Unit := ⟨[event], .ok ()⟩

/-- Goes on with a result; after a fault nothing more happens. -/
def andThen (x : Run α) (f : α → Run β) : Run β :=
  match x.result with
  | .ok a =>
    let y := f a
    ⟨x.events ++ y.events, y.result⟩
  | .error e => ⟨x.events, .error e⟩

instance : Monad Run where
  pure := ok
  bind := andThen

def mapFault (f : Fault → Fault) (x : Run α) : Run α :=
  match x.result with
  | .ok _ => x
  | .error e => ⟨x.events, .error (f e)⟩

def warnings (x : Run α) : List String := x.events.filterMap Event.warning?

end Run

end ExamAdmission
