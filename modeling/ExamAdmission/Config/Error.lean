import ExamAdmission.Document.Value

/-! Problems of single fields. Each has a code, a message and the offending value, and each is
reported at the place of its field. -/

namespace ExamAdmission

/-- What is wrong with the value of a field. -/
inductive IssueKind where
  | missing
  | unexpectedField
  | notText
  | emptyText
  | notOneOf (expected : String)
  | notNumber
  | unreadableNumber
  | belowZero (zero : Value)
  | aboveHundred
  | notInteger
  | unreadableInteger
  | fractional
  | integerTooLarge
  | notFinite
  | notRoundingPolicy
  | unknownRounding (name : String)

/-- A value or the cause of a refusal that accompanies an issue. -/
inductive IssueContext where
  | value (v : Value)
  | cause (message : String)

namespace IssueKind

def code : IssueKind → String
  | .missing => "missing"
  | .unexpectedField => "extra_forbidden"
  | .notText => "string_type"
  | .emptyText => "string_too_short"
  | .notOneOf _ => "literal_error"
  | .notNumber => "float_type"
  | .unreadableNumber => "float_parsing"
  | .belowZero _ => "greater_than_equal"
  | .aboveHundred => "less_than_equal"
  | .notInteger => "int_type"
  | .unreadableInteger => "int_parsing"
  | .fractional => "int_from_float"
  | .integerTooLarge => "int_parsing_size"
  | .notFinite => "finite_number"
  | .notRoundingPolicy => "model_type"
  | .unknownRounding _ => "value_error"

def unknownRoundingText (name : String) : String := "unknown rounding type " ++ quoted name

def message : IssueKind → String
  | .missing => "Field required"
  | .unexpectedField => "Extra inputs are not permitted"
  | .notText => "Input should be a valid string"
  | .emptyText => "String should have at least 1 character"
  | .notOneOf expected => "Input should be " ++ expected
  | .notNumber => "Input should be a valid number"
  | .unreadableNumber => "Input should be a valid number, unable to parse string as a number"
  | .belowZero _ => "Input should be greater than or equal to 0"
  | .aboveHundred => "Input should be less than or equal to 100"
  | .notInteger => "Input should be a valid integer"
  | .unreadableInteger => "Input should be a valid integer, unable to parse string as an integer"
  | .fractional => "Input should be a valid integer, got a number with a fractional part"
  | .integerTooLarge => "Unable to parse input string as an integer, exceeded maximum size"
  | .notFinite => "Input should be a finite number"
  | .notRoundingPolicy => "Input should be a valid dictionary or instance of RoundingPolicy"
  | .unknownRounding name => "Value error, " ++ unknownRoundingText name

def context : IssueKind → List (String × IssueContext)
  | .emptyText => [("min_length", .value (.int 1))]
  | .notOneOf expected => [("expected", .value (.text expected))]
  | .belowZero bound => [("ge", .value bound)]
  | .aboveHundred => [("le", .value (.float (.ofDecimal false 100 0)))]
  | .notRoundingPolicy => [("class_name", .value (.text "RoundingPolicy"))]
  | .unknownRounding name => [("error", .cause (unknownRoundingText name))]
  | _ => []

end IssueKind

/-- A problem at a place: the names of the fields that lead to it, from the outermost. -/
structure Issue where
  kind : IssueKind
  place : List String
  input : Value

/-- The issue as seen from the object that has the inner one in a field. -/
def Issue.within (name : String) (issue : Issue) : Issue :=
  { issue with place := name :: issue.place }

def Issue.line (issue : Issue) : String :=
  let place := ".".intercalate issue.place
  (if place = "" then "<root>" else place) ++ ": " ++ issue.kind.message

/-! Configuration errors: every reason for which a rounding policy, a rule or a policy document
is refused. They carry what a report needs; the wording is that of `message`. -/

inductive ConfigError where
  | unknownRoundingType (given : Value)
  | invalidDecimals (given : Value)
  | ruleNotMapping (given : Value)
  | ruleTypeNotText (given : Value) (allowed : List String)
  | unknownRuleType (given : String) (allowed : List String)
  | invalidFields (ruleType : String) (issues : List Issue)
  | noEvaluator (ruleType : String)
  | noAssignments (ruleType assignmentType : String)
  | withoutPoints (ruleType : String) (assignments : List Value)
  | noRulesList
  | atIndex (index : Nat) (cause : ConfigError)

inductive Detail where
  | value (v : Value)
  | issues (issues : List Issue)

def roundingTypeNames : List String := ["down", "none", "normal", "up"]

namespace ConfigError

def code : String := "CONFIGURATION_ERROR"

def message : ConfigError → String
  | .unknownRoundingType given => "Unknown rounding type: " ++ given.written
  | .invalidDecimals given =>
    "Rounding decimals must be a non-negative integer, got " ++ given.written
  | .ruleNotMapping given => "Rule config must be a mapping, got " ++ given.kindName
  | .ruleTypeNotText given _ => "Rule type must be a string, got " ++ given.written
  | .unknownRuleType given _ => "Unknown rule type: " ++ quoted given
  | .invalidFields ruleType issues =>
    "Invalid " ++ ruleType ++ " rule: " ++ "; ".intercalate (issues.map Issue.line)
  | .noEvaluator ruleType => "No evaluator registered for rule type " ++ quoted ruleType
  | .noAssignments _ assignmentType =>
    "No assignments of type " ++ quoted assignmentType ++ " in course"
  | .withoutPoints _ assignments =>
    "Assignments without points cannot be evaluated in percent: " ++
      (Value.list assignments).written
  | .noRulesList => "Admission policy must contain a top-level 'rules' list."
  | .atIndex index cause => "rules[" ++ toString index ++ "]: " ++ cause.message

def texts (names : List String) : Detail := .value (.list (names.map .text))

def details : ConfigError → List (String × Detail)
  | .unknownRoundingType _ => [("allowed", texts roundingTypeNames)]
  | .ruleTypeNotText _ allowed => [("allowed", texts allowed)]
  | .unknownRuleType _ allowed => [("allowed", texts allowed)]
  | .invalidFields _ issues => [("errors", .issues issues)]
  | .noAssignments ruleType assignmentType =>
    [("rule", .value (.text ruleType)), ("assignment_type", .value (.text assignmentType))]
  | .withoutPoints ruleType assignments =>
    [("rule", .value (.text ruleType)), ("assignments", .value (.list assignments))]
  | .atIndex index cause => ("index", .value (.int index)) :: cause.details
  | _ => []

end ConfigError

end ExamAdmission
