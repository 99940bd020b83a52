import ExamAdmission.Config.Field
import ExamAdmission.Document.Table
import ExamAdmission.Rounding

/-! Rounding policies as they stand in a configuration: a type in any case and, if wanted, a number
of decimals. -/

namespace ExamAdmission

structure RoundingPolicy where
  type : RoundingType
  decimals : Nat
deriving DecidableEq

def Field.roundingType : Value → Except IssueKind RoundingType
  | .text s => match RoundingType.ofName? (lowerCase s) with
    | some t => .ok t
    | none => .error (.unknownRounding (lowerCase s))
  | _ => .error .notText

namespace RoundingPolicy

def fieldNames : List String := ["type", "decimals"]

def ofFields (fields : List (String × Value)) : Checked RoundingPolicy :=
  let parts := (Checked.required fields "type" (Checked.single Field.roundingType)).and <|
    (Checked.optional fields "decimals" 0 (Checked.single Field.natural)).and <|
      Checked.closed fields fieldNames
  parts.map fun (type, decimals, _) => ⟨type, decimals⟩

def ofValue : Value → Checked RoundingPolicy
  | .object fields => ofFields fields
  | v => .error [⟨.notRoundingPolicy, [], v⟩]

def toValue (policy : RoundingPolicy) : Value :=
  .object [("type", .text policy.type.name), ("decimals", .int policy.decimals)]

def rounder (policy : RoundingPolicy) : Except Fault Rounder := policy.type.rounder policy.decimals

def load (v : Value) : Except Fault RoundingPolicy :=
  match ofValue v with
  | .ok policy => .ok policy
  | .error issues => .error (.invalid issues)

end RoundingPolicy

/-! Rule configurations. Their type selects the fields that they must have; every other field is
refused, and all problems of one configuration are reported together. -/

/-- What becomes of a rule when the course has no assignment of its type. -/
inductive WhenNoAssignments where
  | error
  | pass
deriving DecidableEq

def WhenNoAssignments.name : WhenNoAssignments → String
  | .error => "error"
  | .pass => "pass"

/-- The fields that every rule has. -/
structure RuleHeader where
  ruleType : String
  assignmentType : String
  whenNoAssignments : WhenNoAssignments
deriving DecidableEq

/-- The part of a share rule: enough assignments passed, each with enough percent. -/
structure ShareTerms where
  passedPercent : Binary64
  passedRounding : RoundingPolicy
  requiredPercent : Binary64
  achievedRounding : RoundingPolicy
deriving DecidableEq

/-- The part of an overall rule: enough percent of all points. -/
structure OverallTerms where
  requiredPercent : Binary64
  achievedRounding : RoundingPolicy
deriving DecidableEq

inductive RuleConfig where
  | base (header : RuleHeader)
  | share (header : RuleHeader) (terms : ShareTerms)
  | overall (header : RuleHeader) (terms : OverallTerms)
deriving DecidableEq

inductive ConfigClass where
  | base
  | share
  | overall
deriving DecidableEq

def shareType : String := "passed_x_percent_with_at_least_y_percent"

def overallType : String := "required_percent_overall"

def Field.whenNoAssignments : Value → Except IssueKind WhenNoAssignments
  | .text s =>
    if s = "error" then .ok .error
    else if s = "pass" then .ok .pass
    else .error (.notOneOf "'error' or 'pass'")
  | _ => .error (.notOneOf "'error' or 'pass'")

def Field.exactly (expected : String) : Value → Except IssueKind String
  | .text s => if s = expected then .ok s else .error (.notOneOf (quoted expected))
  | _ => .error (.notOneOf (quoted expected))

namespace RuleConfig

def headerNames : List String := ["type", "assignment_type", "when_no_assignments"]

def shareNames : List String :=
  ["passed_assignments_percent", "passed_assignments_rounding", "required_percent",
   "achieved_percent_rounding"]

def overallNames : List String := ["required_percent", "achieved_percent_rounding"]

/-- The common fields; a class of its own allows one rule type only. -/
def headerOf (fields : List (String × Value)) (only : Option String) : Checked RuleHeader :=
  let readType := match only with
    | none => Field.text
    | some name => Field.exactly name
  let parts := (Checked.required fields "type" (Checked.single readType)).and <|
    (Checked.required fields "assignment_type" (Checked.single Field.nonEmptyText)).and <|
      Checked.optional fields "when_no_assignments" .error (Checked.single Field.whenNoAssignments)
  parts.map fun (ruleType, assignmentType, whenNone) => ⟨ruleType, assignmentType, whenNone⟩

def percentField (fields : List (String × Value)) (name : String) : Checked Binary64 :=
  Checked.required fields name (Checked.single Field.percent)

def roundingField (fields : List (String × Value)) (name : String) : Checked RoundingPolicy :=
  Checked.required fields name RoundingPolicy.ofValue

def overallTermsOf (fields : List (String × Value)) : Checked OverallTerms :=
  let parts := (percentField fields "required_percent").and <|
    roundingField fields "achieved_percent_rounding"
  parts.map fun (required, rounding) => ⟨required, rounding⟩

def shareTermsOf (fields : List (String × Value)) : Checked ShareTerms :=
  let parts := (percentField fields "passed_assignments_percent").and <|
    (roundingField fields "passed_assignments_rounding").and <|
      (percentField fields "required_percent").and <|
        roundingField fields "achieved_percent_rounding"
  parts.map fun (passed, passedRounding, required, rounding) =>
    ⟨passed, passedRounding, required, rounding⟩

def ofFields (fields : List (String × Value)) : ConfigClass → Checked RuleConfig
  | .base =>
    ((headerOf fields none).and (Checked.closed fields headerNames)).map fun (h, _) => .base h
  | .share =>
    ((headerOf fields shareType).and <| (shareTermsOf fields).and <|
      Checked.closed fields (headerNames ++ shareNames)).map fun (h, terms, _) => .share h terms
  | .overall =>
    ((headerOf fields overallType).and <| (overallTermsOf fields).and <|
      Checked.closed fields (headerNames ++ overallNames)).map fun (h, terms, _) =>
        .overall h terms

def header : RuleConfig → RuleHeader
  | .base h => h
  | .share h _ => h
  | .overall h _ => h

def headerFields (h : RuleHeader) : List (String × Value) :=
  [("type", .text h.ruleType), ("assignment_type", .text h.assignmentType),
   ("when_no_assignments", .text h.whenNoAssignments.name)]

def toFields : RuleConfig → List (String × Value)
  | .base h => headerFields h
  | .share h terms => headerFields h ++
    [("passed_assignments_percent", .float terms.passedPercent),
     ("passed_assignments_rounding", terms.passedRounding.toValue),
     ("required_percent", .float terms.requiredPercent),
     ("achieved_percent_rounding", terms.achievedRounding.toValue)]
  | .overall h terms => headerFields h ++
    [("required_percent", .float terms.requiredPercent),
     ("achieved_percent_rounding", terms.achievedRounding.toValue)]

end RuleConfig

inductive ConfigSource where
  | document (v : Value)
  | parsed (config : RuleConfig)

/-- The names of a table in order. Only texts can be put in order. -/
def sortedNames {α : Type} (table : Table α) : Except Fault (List String) := do
  let names ← table.mapM fun (label, _) =>
    match label.form with
    | .text s => Except.ok s
    | _ => .error Fault.wrongKind
  return names.mergeSort fun a b => decide (a ≤ b)

/-- Reads a configuration with the classes registered for each rule type, which is compared in
lower case. A configuration that was read before stays as it is. -/
def RuleConfig.parse (classes : Table ConfigClass) : ConfigSource → Except Fault RuleConfig
  | .parsed config => .ok config
  | .document (.object fields) =>
    match field? "type" fields with
    | some (.text given) =>
      let name := lowerCase given
      match classes.find? (.text name) with
      | none => do .error (.config (.unknownRuleType given (← sortedNames classes)))
      | some which =>
        match RuleConfig.ofFields (putField "type" (.text name) fields) which with
        | .ok config => .ok config
        | .error issues => .error (.config (.invalidFields name issues))
    | other => do .error (.config (.ruleTypeNotText (other.getD .null) (← sortedNames classes)))
  | .document v => .error (.config (.ruleNotMapping v))

end ExamAdmission
