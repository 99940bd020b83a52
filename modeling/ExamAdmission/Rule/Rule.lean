import ExamAdmission.Config.RuleConfig
import ExamAdmission.Course.Records
import ExamAdmission.Run

/-! The assignments behind a rule: which identifiers the course knows, which assignments are of the
rule's type, and how many points each of them is worth. -/

namespace ExamAdmission

structure RuleBasis where
  ruleType : String
  assignmentType : String
  known : List Key
  relevant : List Assignment
  maxPoints : Table Value

/-- Whether points are zero or less. What is no number cannot be compared. -/
def lacksPoints (points : Value) : Except Fault Bool := do
  return (← points.number).le (.int 0)

def idsWithoutPoints : List Assignment → Except Fault (List Value)
  | [] => .ok []
  | a :: rest => do
    let lacking ← lacksPoints a.points
    let others ← idsWithoutPoints rest
    return if lacking then a.id :: others else others

def Assignment.isOfType (type : String) (a : Assignment) : Bool := a.type.isText type

/-- The basis of a rule in a course. An empty one has to be allowed, and every assignment in it
must be worth something. -/
def RuleBasis.build (header : RuleHeader) (assignments : List Assignment) :
    Except Fault RuleBasis := do
  let labels ← assignments.mapM fun a => a.id.label
  let relevant := assignments.filter (Assignment.isOfType header.assignmentType)
  if relevant.isEmpty && header.whenNoAssignments = .error then
    .error (.config (.noAssignments header.ruleType header.assignmentType))
  else
    match ← idsWithoutPoints relevant with
    | [] =>
      let entries ← relevant.mapM fun a => do return (← a.id.label, a.points)
      return {
        ruleType := header.ruleType
        assignmentType := header.assignmentType
        known := labels.map Label.key
        relevant := relevant
        maxPoints := Table.ofList entries }
    | ids => .error (.config (.withoutPoints header.ruleType ids))

/-! Rules, built once for a course. A share rule asks for a number of passed assignments, its quota;
an overall rule for a percent of all points. -/

inductive RuleClass where
  | base
  | share
  | overall
deriving DecidableEq

inductive Measure where
  | nothing
  | share (rounder : Rounder) (requiredPercent quota : Binary64)
  | overall (rounder : Rounder) (requiredPercent : Binary64) (total : Number)

structure Rule where
  basis : RuleBasis
  measure : Measure

namespace Rule

def shareTerms : RuleConfig → Except Fault ShareTerms
  | .share _ terms => .ok terms
  | _ => .error .missingAttribute

/-- The overall terms of a configuration; those of a share rule include them. -/
def overallTerms : RuleConfig → Except Fault OverallTerms
  | .overall _ terms => .ok terms
  | .share _ terms => .ok ⟨terms.requiredPercent, terms.achievedRounding⟩
  | .base _ => .error .missingAttribute

def quota (rounder : Rounder) (count : Nat) (passedPercent : Binary64) : Except Fault Binary64 := do
  rounder.round (← shareOfCount count (← fractionOfPercent passedPercent))

/-- The rule of a class, without events. Rounders come first, then the assignments. -/
def build (which : RuleClass) (config : RuleConfig) (assignments : List Assignment) :
    Except Fault Rule :=
  match which with
  | .base => do
    return ⟨← RuleBasis.build config.header assignments, .nothing⟩
  | .share => do
    let terms ← shareTerms config
    let passedRounder ← terms.passedRounding.rounder
    let achievedRounder ← terms.achievedRounding.rounder
    let basis ← RuleBasis.build config.header assignments
    let required ← quota passedRounder basis.relevant.length terms.passedPercent
    return ⟨basis, .share achievedRounder terms.requiredPercent required⟩
  | .overall => do
    let terms ← overallTerms config
    let rounder ← terms.achievedRounding.rounder
    let basis ← RuleBasis.build config.header assignments
    let total ← Value.sum basis.maxPoints.values
    return ⟨basis, .overall rounder terms.requiredPercent total⟩

def builtEvents (rule : Rule) : List Event :=
  let built := Event.ruleBuilt rule.basis.ruleType rule.basis.assignmentType
    rule.basis.relevant.length
  match rule.measure with
  | .nothing => []
  | .share _ _ quota => [built (.passCount quota)]
  | .overall _ _ total => [built (.points total.toValue)]

def make (which : RuleClass) (config : RuleConfig) (assignments : List Assignment) : Run Rule :=
  match build which config assignments with
  | .ok rule => ⟨rule.builtEvents, .ok rule⟩
  | .error e => .fail e

end Rule

end ExamAdmission
