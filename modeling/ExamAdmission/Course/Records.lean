import ExamAdmission.Document.Access

/-! The records of a course. Assignments are what is handed out, of a type and for so many points;
assessments are the points that a participant, a user or a group, achieved in an assignment. -/

namespace ExamAdmission

structure Assignment where
  id : Value
  courseId : Value
  type : Value
  points : Value

namespace Assignment

/-- Reads an assignment leniently: identifiers and type become text, points a double. -/
def read (data : Value) : Except Fault Assignment := do
  let id ← data.item "id"
  let courseId ← data.pick? ["course_id", "courseId"]
  let type ← data.item "type"
  let points ← data.pick? ["points"]
  return {
    id := .text id.shown
    courseId := .text (courseId.getD (.text "")).shown
    type := .text type.shown
    points := .float (← (points.getD (.int 0)).toBinary64) }

def fieldNames : List (String × Option Value) :=
  [("id", none), ("course_id", none), ("type", none), ("points", none)]

def ofFields (data : Value) : Except Fault Assignment := do
  match ← recordOf fieldNames data with
  | [id, courseId, type, points] => return ⟨id, courseId, type, points⟩
  | _ => .error .wrongKind

end Assignment

structure Assessment where
  id : Value
  assignmentId : Value
  userId : Value
  groupId : Value
  achievedPoints : Value
  isDraft : Value

namespace Assessment

/-- Who the assessment counts for: its user, and its group when there is no user. -/
def participantId (a : Assessment) : Value :=
  match a.userId with
  | .null => a.groupId
  | user => user

def textOrNull : Value → Value
  | .null => .null
  | v => .text v.shown

def pointsOrNull : Value → Except Fault Value
  | .null => .ok .null
  | v => do return .float (← v.toBinary64)

/-- Reads an assessment leniently. Without an assignment it is refused before anything else is
looked at. -/
def read (data : Value) : Except Fault Assessment := do
  let achieved ← data.pick? ["achieved_points", "achievedPoints"]
  let user ← data.pick? ["user_id", "userId"]
  let group ← data.pick? ["group_id", "groupId"]
  let assignment ← data.pick? ["assignment_id", "assignmentId"]
  match assignment.getD .null with
  | .null => .error (.missingKey "assignment_id")
  | assignmentId =>
    let id ← data.item "id"
    let points ← pointsOrNull (achieved.getD .null)
    let draft ← data.pick? ["is_draft", "isDraft"]
    return {
      id := .text id.shown
      assignmentId := .text assignmentId.shown
      userId := textOrNull (user.getD .null)
      groupId := textOrNull (group.getD .null)
      achievedPoints := points
      isDraft := .bool (draft.getD (.bool false)).holds }

def fieldNames : List (String × Option Value) :=
  [("id", none), ("assignment_id", none), ("user_id", some .null), ("group_id", some .null),
   ("achieved_points", some .null), ("is_draft", some (.bool false))]

def ofFields (data : Value) : Except Fault Assessment := do
  match ← recordOf fieldNames data with
  | [id, assignmentId, userId, groupId, achievedPoints, isDraft] =>
    return ⟨id, assignmentId, userId, groupId, achievedPoints, isDraft⟩
  | _ => .error .wrongKind

end Assessment

/-- Records are read leniently, or taken with their fields as given. -/
inductive RecordForm where
  | lenient
  | asGiven
deriving DecidableEq

namespace RecordForm

def assignment : RecordForm → Value → Except Fault Assignment
  | .lenient => Assignment.read
  | .asGiven => Assignment.ofFields

def assessment : RecordForm → Value → Except Fault Assessment
  | .lenient => Assessment.read
  | .asGiven => Assessment.ofFields

def assignments (form : RecordForm) (data : Value) : Except Fault (List Assignment) := do
  (← data.elements).mapM form.assignment

def assessments (form : RecordForm) (data : Value) : Except Fault (List Assessment) := do
  (← data.elements).mapM form.assessment

end RecordForm

end ExamAdmission
