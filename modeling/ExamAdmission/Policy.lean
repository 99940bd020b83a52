import ExamAdmission.Course.Records
import ExamAdmission.Rule.Check

/-! Registries: which configuration and which evaluator belong to a rule type. Both are registered
under a name once. -/

namespace ExamAdmission

structure Registry where
  configs : Table ConfigClass
  rules : Table RuleClass

namespace Registry

def standard : Registry where
  configs := [(.ofText shareType, .share), (.ofText overallType, .overall)]
  rules := [(.ofText shareType, .share), (.ofText overallType, .overall)]

def registerConfig (r : Registry) (name : Value) (which : ConfigClass) : Except Fault Registry := do
  let label ← name.label
  if (r.configs.find? label.key).isSome then .error (.duplicateConfigType name)
  else return { r with configs := r.configs.put label which }

def registerRule (r : Registry) (name : Value) (which : RuleClass) : Except Fault Registry := do
  let label ← name.label
  if (r.rules.find? label.key).isSome then .error (.duplicateRuleType name)
  else return { r with rules := r.rules.put label which }

def ruleTypes (r : Registry) : Except Fault (List String) := sortedNames r.rules

def configTypes (r : Registry) : Except Fault (List String) := sortedNames r.configs

def parse (r : Registry) (source : ConfigSource) : Except Fault RuleConfig :=
  RuleConfig.parse r.configs source

def buildConfig (r : Registry) (assignments : List Assignment) (config : RuleConfig) : Run Rule :=
  match r.rules.find? (.text config.header.ruleType) with
  | some which => Rule.make which config assignments
  | none => .fail (.config (.noEvaluator config.header.ruleType))

def build (r : Registry) (assignments : List Assignment) (document : Value) : Run Rule := do
  r.buildConfig assignments (← Run.of (r.parse (.document document)))

/-- Builds a rule and checks a participant by it. The assessments are read last, and only for a
rule that has a verdict. -/
def check (r : Registry) (assignments : List Assignment) (document : Value)
    (assessments : Value) : Run CheckResult := do
  let rule ← r.build assignments document
  match rule.measure with
  | .nothing => .fail .missingAttribute
  | _ => rule.check (← Run.of (RecordForm.lenient.assessments assessments))

end Registry

/-! Admission policies: documents with a list of rule configurations. A configuration that is
refused is named by its index, and no rules come beside an error. -/

namespace Policy

def configs? : Value → Option (List Value)
  | .object fields => match field? "rules" fields with
    | some (.list configs) => some configs
    | _ => none
  | _ => none

/-- A configuration error of the rule at an index; other faults stay as they are. -/
def atIndex (index : Nat) : Fault → Fault
  | .config cause => .config (.atIndex index cause)
  | e => e

/-- The rules of the configurations that follow the first `index` ones. -/
def buildFrom (registry : Registry) (assignments : List Assignment) :
    Nat → List Value → Run (List Rule)
  | _, [] => .ok []
  | index, config :: rest => do
    let rule ← (registry.build assignments config).mapFault (atIndex index)
    let others ← buildFrom registry assignments (index + 1) rest
    return rule :: others

def listRules (registry : Registry) (assignments : List Assignment) (document : Value) :
    Run (List Rule) :=
  match configs? document with
  | some configs => buildFrom registry assignments 0 configs
  | none => .fail (.config .noRulesList)

/-- The document with a configuration added at the end, and the number of them. A document without
a list of rules stays. -/
def append (config : Value) (document : Value) : Value × Nat :=
  match document, configs? document with
  | .object fields, some configs =>
    (.object (putField "rules" (.list (configs ++ [config])) fields), configs.length + 1)
  | _, _ => (document, 0)

end Policy

end ExamAdmission
