import ExamAdmission.Config.Error
import ExamAdmission.Document.Json

/-! Faults: everything that an operation of the library can fail with. -/

namespace ExamAdmission

inductive Fault where
  | config (cause : ConfigError)
  | invalid (issues : List Issue)
  | percentOfNothing (achieved required : Value)
  | missingKey (name : String)
  | duplicateRuleType (name : Value)
  | duplicateConfigType (name : Value)
  | unknownLogLevel (given : String)
  | unknownLevel
  | unreadableNumber
  | malformedTemplate
  | wrongKind
  | wrongLength
  | missingAttribute
  | outOfRange
  | outOfMemory
  | arithmetic (cause : ArithmeticFault)
  | fileNotFound
  | notJson (cause : JsonFault)
  | notUtf8

namespace Fault

def divisionCode : String := "DIVISION_BOUNDARY_ERROR"

def message? : Fault → Option String
  | .config cause => some cause.message
  | .percentOfNothing achieved required =>
    some ("Cannot compute percent of " ++ achieved.written ++ " relative to " ++ required.written)
  | .missingKey name => some name
  | .duplicateRuleType name => some ("Duplicate rule type: " ++ name.shown)
  | .duplicateConfigType name => some ("Duplicate rule config type: " ++ name.shown)
  | .unknownLogLevel given => some ("Unknown log level: " ++ quoted given)
  | _ => none

end Fault

def liftArithmetic {α : Type} : Except ArithmeticFault α → Except Fault α
  | .ok a => .ok a
  | .error e => .error (.arithmetic e)

end ExamAdmission
