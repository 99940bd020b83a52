import ExamAdmission.Course.Records
import ExamAdmission.Engine

/-! Sessions: an engine at work while its policy document goes on to change. The engine keeps the
rules it was built with; only listing the rules again sees the document as it is. -/

namespace ExamAdmission

/-- One step of a session. A step that could not be read is answered by the reason for it. -/
inductive Step where
  | evaluate (assessments : Value)
  | evaluateMany (participants : Value)
  | group (assessments ids : Value)
  | groupEvaluate (assessments ids : Value)
  | rules
  | appendRule (config : Value)
  | listRules
  | unreadable (reason : Fault)

inductive StepAnswer where
  | status (status : AdmissionStatus)
  | statuses (statuses : Table AdmissionStatus)
  | groups (groups : Table (List Assessment))
  | rules (rules : List Rule)
  | length (count : Nat)

structure Session where
  registry : Registry
  form : RecordForm
  assignments : List Assignment
  document : Value
  engine : Engine

namespace Session

def start (registry : Registry) (form : RecordForm) (assignments document : Value) :
    Run Session := do
  let assignments ← Run.of (form.assignments assignments)
  let engine ← Engine.ofPolicy registry assignments document
  return ⟨registry, form, assignments, document, engine⟩

variable (session : Session)

def readAssessments (assessments : Value) : Run (List Assessment) :=
  Run.of (session.form.assessments assessments)

def readParticipant (participant : Value) : Except Fault (Label × List Assessment) := do
  let (id, assessments) ← participant.pair
  let own ← session.form.assessments assessments
  return (← id.label, own)

/-- The participants of a list of pairs. A repeated one has the last list in the first place. -/
def readParticipants (participants : Value) : Run (Table (List Assessment)) :=
  Run.of do return Table.ofList (← (← participants.elements).mapM session.readParticipant)

def grouped (assessments ids : Value) : Run (Table (List Assessment)) := do
  groupByParticipant (← session.readAssessments assessments) ids

def answer : Step → Run StepAnswer
  | .evaluate assessments => do
    return .status (← session.engine.evaluate (← session.readAssessments assessments))
  | .evaluateMany participants => do
    return .statuses (← session.engine.evaluateMany (← session.readParticipants participants))
  | .group assessments ids => do return .groups (← session.grouped assessments ids)
  | .groupEvaluate assessments ids => do
    return .statuses (← session.engine.evaluateMany (← session.grouped assessments ids))
  | .rules => .ok (.rules session.engine.rules)
  | .appendRule config => .ok (.length (Policy.append config session.document).2)
  | .listRules => do
    return .rules (← Policy.listRules session.registry session.assignments session.document)
  | .unreadable reason => .fail reason

/-- The session after a step: only an added configuration changes anything. -/
def after : Step → Session
  | .appendRule config => { session with document := (Policy.append config session.document).1 }
  | _ => session

end Session

def Session.run (session : Session) : List Step → List (Run StepAnswer)
  | [] => []
  | step :: rest => session.answer step :: (session.after step).run rest

end ExamAdmission
