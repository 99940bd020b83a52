import ExamAdmission.Document.Access
import ExamAdmission.Document.Table
import ExamAdmission.Logging.Template

/-! Records that a logger makes from parts that are all given. Nothing is written of them, but not
all parts go together. -/

namespace ExamAdmission

namespace Logging

/-- The argument of an event that is a template: an object alone in a list stands for itself. What
has no length is none, and an object of one entry is searched for the name 0. -/
def templateArgument : Value → Except Fault Value
  | .list [.object (field :: fields)] => .ok (.object (field :: fields))
  | .list items => .ok (.list items)
  | .text s => .ok (.text s)
  | .object [_] => .error (.missingKey "0")
  | .object fields => .ok (.object fields)
  | _ => .error .wrongKind

namespace Record

/-- The parts that have to be given beside the name. -/
def neededParts : List String := ["level", "fn", "lno", "msg", "args", "exc_info"]

def otherParts : List String := ["func", "extra"]

/-- What a record has by itself, which nothing extra may replace. -/
def ownNames : List String :=
  ["message", "asctime", "name", "msg", "args", "levelname", "levelno", "pathname", "filename",
   "module", "exc_info", "exc_text", "stack_info", "lineno", "funcName", "created", "msecs",
   "relativeCreated", "thread", "threadName", "processName", "process"]

/-- One extra attribute of a record, which an object gives by its name. -/
def checkExtra (extra key : Value) : Except Fault Unit :=
  if ownNames.any fun name => key.isText name then
    .error (.missingKey ("Attempt to overwrite " ++ key.written ++ " in LogRecord"))
  else if extra matches .object _ then .ok ()
  else .error .wrongKind

def check (parts : List (String × Value)) : Except Fault Unit := do
  if parts.any fun part => !(neededParts ++ otherParts).contains part.1 then .error .wrongKind
  if neededParts.any fun name => (field? name parts).isNone then .error .wrongKind
  let part (name : String) := (field? name parts).getD .null
  if (part "args").holds then discard (templateArgument (part "args"))
  discard (part "level").label
  match part "extra" with
  | .null => return
  | extra => (← extra.elements).forM (checkExtra extra)

end Record

end Logging

end ExamAdmission
