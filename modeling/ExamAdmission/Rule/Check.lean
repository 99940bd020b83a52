import ExamAdmission.Course.Records
import ExamAdmission.Rule.Rule

/-! Checking a participant. Of the assessments those count that are no drafts and belong to an
assignment of the rule; the last one for an assignment replaces the others. -/

namespace ExamAdmission

/-- The outcome of a rule. A share rule reports passed assignments in the place of points, and
their number relative to the quota in the place of the percent. -/
structure CheckResult where
  achievedPoints : Value
  achievedPercent : Binary64
  passed : Bool
  ruleType : String
  assignmentType : String

def hundred : Binary64 := .ofDecimal false 100 0

/-- Points that do not hold, as those of an ungraded assessment, count as zero. -/
def Value.orZeroPoints (v : Value) : Value := if v.holds then v else .float (.zero false)

namespace Rule

variable (rule : Rule)

/-- The assessments that count, each with its assignment and points. Those of an assignment that
the course does not know are told of and left out. -/
def counted : List Assessment → Run (List (Label × Value))
  | [] => .ok []
  | a :: rest =>
    if a.isDraft.holds then counted rest
    else do
      let label ← Run.of a.assignmentId.label
      if label.key ∉ rule.basis.known then do
        Run.tell (.unknownAssignment a.id a.assignmentId rule.basis.ruleType)
        counted rest
      else do
        let others ← counted rest
        if label.key ∈ rule.basis.maxPoints.keys then
          return (label, a.achievedPoints.orZeroPoints) :: others
        else return others

/-- The points of each assignment that has any, in the order of first mention. -/
def achieved (assessments : List Assessment) : Run (Table Value) := do
  return Table.ofList (← rule.counted assessments)

end Rule

def passesAssignment (rounder : Rounder) (requiredPercent : Binary64) (achieved : Table Value)
    (key : Key) (points : Value) : Except Fault Bool := do
  let percent ← percentOf ((achieved.find? key).getD (.float (.zero false))) points
  return (Number.float requiredPercent).le (.float (← rounder.round percent))

def passedAssignments (rounder : Rounder) (requiredPercent : Binary64) (achieved : Table Value) :
    Table Value → Except Fault (List Value)
  | [] => .ok []
  | (label, points) :: rest => do
    let passes ← passesAssignment rounder requiredPercent achieved label.key points
    let others ← passedAssignments rounder requiredPercent achieved rest
    return if passes then label.form :: others else others

/-- The number of passed assignments relative to the quota. Nothing required is all achieved. -/
def percentOfQuota (count : Nat) (quota : Binary64) : Except Fault Binary64 :=
  if (Number.float quota).isZero then .ok hundred
  else percentOf (.int count) (.float quota)

/-- The percent of all points. Nothing to achieve is all achieved. -/
def percentOfTotal (rounder : Rounder) (sum total : Number) : Except Fault Binary64 :=
  if total.isZero then .ok hundred
  else do rounder.round (← percentOf sum.toValue total.toValue)

namespace Rule

variable (rule : Rule)

/-- The passed assignments for the points of an object; only a share rule knows them. Points are
asked for only if the rule has an assignment. -/
def passedFor (points : Value) : Except Fault (List Value) :=
  match rule.measure, points, rule.basis.maxPoints with
  | .share .., _, [] => .ok []
  | .share rounder requiredPercent _, .object fields, maxPoints =>
    let achieved := fields.map fun (name, v) => (Label.ofText name, v)
    passedAssignments rounder requiredPercent achieved maxPoints
  | _, _, _ => .error .missingAttribute

def result (points : Value) (percent : Binary64) (passed : Bool) : CheckResult :=
  ⟨points, percent, passed, rule.basis.ruleType, rule.basis.assignmentType⟩

def verdict (achieved : Table Value) : Except Fault CheckResult :=
  match rule.measure with
  | .nothing => .error .missingAttribute
  | .share rounder requiredPercent quota => do
    let count := (← passedAssignments rounder requiredPercent achieved rule.basis.maxPoints).length
    let percent ← percentOfQuota count quota
    return rule.result (.int count) percent ((Number.float quota).le (.int count))
  | .overall rounder requiredPercent total => do
    let sum ← Value.sum achieved.values
    let percent ← percentOfTotal rounder sum total
    return rule.result sum.toValue percent ((Number.float requiredPercent).le (.float percent))

/-- Checks a participant by the assessments. A rule without measure has no verdict, whatever they
are. -/
def check (assessments : List Assessment) : Run CheckResult :=
  match rule.measure with
  | .nothing => .fail .missingAttribute
  | _ => do Run.of (rule.verdict (← rule.achieved assessments))

end Rule

end ExamAdmission
