import ExamAdmission.Policy

/-! The engine: the rules of one policy, applied to one participant or to all of a course. A
participant is admitted when every rule passes. -/

namespace ExamAdmission

structure AdmissionStatus where
  hasAdmission : Bool
  results : List CheckResult

namespace AdmissionStatus

def ofResults (results : List CheckResult) : AdmissionStatus :=
  ⟨results.all CheckResult.passed, results⟩

def failedRules (status : AdmissionStatus) : List CheckResult :=
  status.results.filter fun r => !r.passed

/-- The places of the failed rules among the results. -/
def failedIndices (status : AdmissionStatus) : List Nat :=
  (status.results.zipIdx.filter fun (r, _) => !r.passed).map Prod.snd

end AdmissionStatus

structure Engine where
  rules : List Rule

namespace Engine

/-- The engine of a policy document; its rules are built here and never again. -/
def ofPolicy (registry : Registry) (assignments : List Assignment) (document : Value) :
    Run Engine := do
  return ⟨← Policy.listRules registry assignments document⟩

def checkAll (assessments : List Assessment) : List Rule → Run (List CheckResult)
  | [] => .ok []
  | rule :: rest => do
    let result ← rule.check assessments
    let others ← checkAll assessments rest
    return result :: others

def evaluate (engine : Engine) (assessments : List Assessment) : Run AdmissionStatus := do
  return .ofResults (← checkAll assessments engine.rules)

def evaluateEach (engine : Engine) : Table (List Assessment) → Run (Table AdmissionStatus)
  | [] => .ok []
  | (participant, assessments) :: rest => do
    let status ← engine.evaluate assessments
    let others ← engine.evaluateEach rest
    return (participant, status) :: others

/-- The statuses of all participants, and one event with their counts at the end. -/
def evaluateMany (engine : Engine) (participants : Table (List Assessment)) :
    Run (Table AdmissionStatus) := do
  let statuses ← engine.evaluateEach participants
  let admitted := statuses.values.filter AdmissionStatus.hasAdmission
  Run.tell (.statusComputed statuses.length admitted.length engine.rules.length)
  return statuses

end Engine

/-! Assessments by participant. Every participant has a list of the own assessments in the order of
the course; participants named in advance come first, even without any. -/

/-- The labels of the participants named in advance; what does not hold names none. -/
def namedParticipants (ids : Value) : Except Fault (List Label) :=
  if ids.holds then do (← ids.elements).mapM Value.label else .ok []

namespace Table

variable {α : Type}

def push (label : Label) (a : α) (table : Table (List α)) : Table (List α) :=
  table.put label (((table.find? label.key).getD []) ++ [a])

end Table

/-- Adds assessments to their participants' lists. One without a participant is told of. -/
def groupInto (groups : Table (List Assessment)) :
    List Assessment → Run (Table (List Assessment))
  | [] => .ok groups
  | a :: rest =>
    match a.participantId with
    | .null => do
      Run.tell (.withoutParticipant a.id)
      groupInto groups rest
    | participant => do
      let label ← Run.of participant.label
      groupInto (groups.push label a) rest

/-- Groups assessments by participant, after the participants named in advance. -/
def groupByParticipant (assessments : List Assessment) (ids : Value) :
    Run (Table (List Assessment)) := do
  let named ← Run.of (namedParticipants ids)
  groupInto (Table.ofList (named.map fun label => (label, []))) assessments

end ExamAdmission
