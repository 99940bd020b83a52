import ExamAdmission.Fault

/-! Error reports: a code, a message and details, made from arguments in the order of the parts
that the family leaves open. -/

namespace ExamAdmission

/-- The families of reports. Two of them have a code of their own. -/
inductive ReportFamily where
  | admission
  | configuration
  | division
deriving DecidableEq

structure Report where
  family : ReportFamily
  code : Value
  message : Value
  details : Value

namespace Report

/-- Details that do not hold are empty. -/
def detailsOf (v : Value) : Value := if v.holds then v else .object []

def defaultDivisionMessage : String := "Cannot compute a percent of zero"

/-- The report of a family from its arguments. There may be neither too few nor too many. -/
def ofArguments : ReportFamily → List Value → Except Fault Report
  | .admission, [code, message] => .ok ⟨.admission, code, message, .object []⟩
  | .admission, [code, message, details] => .ok ⟨.admission, code, message, detailsOf details⟩
  | .configuration, [message] =>
    .ok ⟨.configuration, .text ConfigError.code, message, .object []⟩
  | .configuration, [message, details] =>
    .ok ⟨.configuration, .text ConfigError.code, message, detailsOf details⟩
  | .division, [] =>
    .ok ⟨.division, .text Fault.divisionCode, .text defaultDivisionMessage, .object []⟩
  | .division, [message] => .ok ⟨.division, .text Fault.divisionCode, message, .object []⟩
  | .division, [message, details] =>
    .ok ⟨.division, .text Fault.divisionCode, message, detailsOf details⟩
  | _, _ => .error .wrongKind

end Report

end ExamAdmission
