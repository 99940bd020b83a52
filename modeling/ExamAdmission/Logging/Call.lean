import ExamAdmission.Logging.Loggers
import ExamAdmission.Logging.Record

/-! Calls of loggers. A call of a level's method, or of the one that takes its level as a number,
makes an entry; a few more methods of a logger change it, answer or fail without one. -/

namespace ExamAdmission

namespace Logging

structure Call where
  logger : Value
  method : String
  event : Value
  fields : List (String × Value)

def Call.read (data : Value) : Except Fault Call := do
  let logger ← data.item "logger"
  match ← data.item "method" with
  | .text method =>
    let event ← data.item "event"
    match ← data.pick? ["fields"] with
    | none => return ⟨logger, method, event, []⟩
    | some (.object fields) => return ⟨logger, method, event, fields⟩
    | some _ => .error .wrongKind
  | _ => .error .wrongKind

/-- What a call wants to be written. A traced entry is followed by the exception being handled. -/
structure Entry where
  level : String
  severity : Nat
  logger : String
  event : Value
  fields : List (String × Value)
  traced : Bool

/-- What a call comes to: an entry, loggers as they are after it, or a promise to make an entry
later. -/
inductive Outcome where
  | entry (entry : Entry)
  | settled (loggers : Loggers)
  | promise (method : String)

namespace Call

variable (call : Call)

/-- No field may have a name that a part of the call has already. -/
def refuseFields (names : List String) : Except Fault Unit :=
  if call.fields.any fun field => names.contains field.1 then .error .wrongKind else .ok ()

/-- The entry of a call that gives its level as a number in the place of the event, and the event
as a field. -/
def entryOfNumber (logger : String) : Except Fault Entry := do
  call.refuseFields ["self", "level"]
  let (level, severity) ← levelOfNumber call.event
  call.refuseFields ["method_name"]
  return {
    level := level
    severity := severity
    logger := logger
    event := (field? "event" call.fields).getD .null
    fields := call.fields.filter fun field => field.1 ≠ "event"
    traced := false }

/-- The methods that promise an entry of their level. -/
def promises : List String :=
  ["adebug", "ainfo", "awarning", "aerror", "acritical", "afatal", "aexception"]

/-- Whether the call promises an entry; one that cannot promise it is a fault. -/
def isPromise : Except Fault Bool := do
  if promises.contains call.method then
    call.refuseFields ["self", "event"]
    return true
  else if call.method = "alog" then
    call.refuseFields ["self", "level"]
    if (field? "event" call.fields).isSome then return true else .error .wrongKind
  else return false

/-- Parts of a logger that cannot be called, and methods that take no value. -/
def uncallable : List String :=
  ["name", "level", "parent", "propagate", "handlers", "disabled", "bind", "new", "hasHandlers",
   "getEffectiveLevel"]

/-- Methods that take a value and no fields. -/
def plain : List String :=
  ["setLevel", "addHandler", "removeHandler", "isEnabledFor", "getChild", "handle",
   "callHandlers", "unbind", "try_unbind"]

/-- How many levels up a caller is looked for. The root takes any number; elsewhere what does not
hold asks for none, and a number that is not whole may ask for one at most. -/
def checkStackLevel (logger : String) (v : Value) : Except Fault Unit :=
  match v.number? with
  | some (.float x) =>
    if logger = root || Number.le (.float x) (.int 1) || x = .nan then .ok ()
    else .error .wrongKind
  | some (.int _) => .ok ()
  | none => if logger ≠ root && !v.holds then .ok () else .error .wrongKind

def settle (loggers : Loggers) (logger : String) : Except Fault Loggers := do
  if uncallable.contains call.method then .error .wrongKind
  if plain.contains call.method && !call.fields.isEmpty then .error .wrongKind
  match call.method with
  | "setLevel" => return loggers.setLevel logger (← levelGiven call.event)
  | "addHandler" => return loggers.addHandler logger call.event
  | "removeHandler" => return loggers.removeHandler logger call.event
  | "isEnabledFor" =>
    discard call.event.number
    return loggers
  | "getChild" =>
    if call.event matches .text _ then return loggers else .error .wrongKind
  | "findCaller" =>
    if call.fields.any fun field => field.1 ≠ "stacklevel" then .error .wrongKind
    checkStackLevel logger ((field? "stacklevel" call.fields).getD (.int 1))
    return loggers
  | "makeRecord" =>
    Record.check call.fields
    return loggers
  | "unbind" =>
    discard call.event.label
    .error (.missingKey call.event.shown)
  | "try_unbind" => return loggers
  | _ => .error .missingAttribute

def outcome (loggers : Loggers) : Except Fault Outcome := do
  let logger ← loggerName call.logger
  match levelOfMethod? call.method with
  | some (level, severity) =>
    call.refuseFields ["self", "event", "method_name"]
    return .entry {
      level := level
      severity := severity
      logger := logger
      event := call.event
      fields := call.fields
      traced := call.method = "exception" }
  | none =>
    if call.method = "log" then return .entry (← call.entryOfNumber logger)
    else if ← call.isPromise then return .promise call.method
    else return .settled (← call.settle loggers logger)

end Call

end Logging

end ExamAdmission
