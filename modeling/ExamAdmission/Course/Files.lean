import ExamAdmission.Course.Records
import ExamAdmission.Engine

/-! The files of a course: its policy, its assignments and the assessments of its participants,
each a JSON document in UTF-8. -/

namespace ExamAdmission

abbrev CourseFiles := List (String × ByteArray)

namespace CourseFiles

def document (files : CourseFiles) (name : String) : Except Fault Value :=
  match files.lookup name with
  | none => .error .fileNotFound
  | some bytes =>
    match String.fromUTF8? bytes with
    | none => .error .notUtf8
    | some text =>
      match Value.ofJson text.toList with
      | .ok v => .ok v
      | .error e => .error (.notJson e)

def policy (files : CourseFiles) : Except Fault Value := files.document "policy.json"

def assignments (files : CourseFiles) : Except Fault (List Assignment) := do
  RecordForm.lenient.assignments (← files.document "assignments.json")

def assessments (files : CourseFiles) : Except Fault (List Assessment) := do
  RecordForm.lenient.assessments (← files.document "assessments.json")

/-- The statuses of all participants of the course. The engine is built before the assessments are
read. -/
def statuses (files : CourseFiles) (registry : Registry) (ids : Value) :
    Run (Table AdmissionStatus) := do
  let document ← Run.of files.policy
  let assignments ← Run.of files.assignments
  let engine ← Engine.ofPolicy registry assignments document
  let groups ← groupByParticipant (← Run.of files.assessments) ids
  engine.evaluateMany groups

end CourseFiles

end ExamAdmission
