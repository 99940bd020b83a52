import ExamAdmission.Document.Table
import ExamAdmission.Text.Characters

/-! Loggers and their levels. Levels have names and numbers, and can be given in either way. Loggers
form a hierarchy by the dots in their names, below one root: a logger without a level of its own has
that of the nearest logger above it, and writes through the handlers of all of them. -/

namespace ExamAdmission

namespace Logging

/-- The levels by name. Everything passes the level that is not set. -/
def levels : List (String × Nat) :=
  [("CRITICAL", 50), ("FATAL", 50), ("ERROR", 40), ("WARNING", 30), ("WARN", 30), ("INFO", 20),
   ("DEBUG", 10), ("NOTSET", 0)]

/-- The number of a level that is named in any case. -/
def levelOf : Value → Except Fault Nat
  | .text s => match levels.lookup (asciiCapitals s) with
    | some n => .ok n
    | none => .error (.unknownLogLevel s)
  | _ => .error .missingAttribute

/-- A level given to one logger: any whole number, a truth value among them, or a name in
capitals. -/
def levelGiven : Value → Except Fault Value
  | .bool b => .ok (.bool b)
  | .int n => .ok (.int n)
  | .text s => match levels.lookup s with
    | some n => .ok (.int n)
    | none => .error .unknownLevel
  | _ => .error .wrongKind

/-- The levels that an entry can have, by name. -/
def entryLevels : List (String × Nat) :=
  [("debug", 10), ("info", 20), ("warning", 30), ("error", 40), ("critical", 50)]

/-- The methods of levels that have a second name. -/
def levelAliases : List (String × String) :=
  [("warn", "warning"), ("exception", "error"), ("fatal", "critical")]

def levelOfMethod? (method : String) : Option (String × Nat) :=
  let name := (levelAliases.lookup method).getD method
  (entryLevels.lookup name).map fun severity => (name, severity)

/-- The level of a number, which may be of any kind. -/
def levelOfNumber (v : Value) : Except Fault (String × Nat) := do
  let label ← v.label
  match entryLevels.find? fun (_, severity) => Key.number (.ofInt severity) = label.key with
  | some level => return level
  | none => .error (.missingKey v.shown)

def root : String := "root"

/-- The name of the logger that answers to a value; what does not hold is the root. -/
def loggerName (v : Value) : Except Fault String :=
  match v with
  | .text s => .ok (if s = "" then root else s)
  | v => if v.holds then .error .wrongKind else .ok root

/-- The names of a logger and of those above it, nearest first. -/
def lineage (name : String) : List String :=
  let parts := name.splitOn "."
  let above := (List.range parts.length).map fun count =>
    ".".intercalate (parts.take (parts.length - count))
  above ++ [root]

/-- What calls have changed on loggers: levels of their own, the last one first, and values added
as handlers. -/
structure Loggers where
  levels : List (String × Value)
  handlers : List (String × Value)

namespace Loggers

def start (level : Nat) : Loggers := ⟨[(root, .int level)], []⟩

variable (loggers : Loggers)

/-- The level of a logger itself, in the form in which it was given. -/
def ownLevel (name : String) : Value := (loggers.levels.lookup name).getD (.int 0)

/-- The level that an entry of a logger has to reach: that of the nearest logger with one. Zero is
no level. -/
def level (name : String) : Int :=
  match (lineage name).findSome? fun logger =>
    if (loggers.ownLevel logger).holds then (loggers.ownLevel logger).number? else none with
  | some (.int level) => level
  | _ => 0

def setLevel (name : String) (level : Value) : Loggers :=
  { loggers with levels := (name, level) :: loggers.levels }

/-- A handler that is there already is not added again. -/
def addHandler (name : String) (v : Value) : Loggers :=
  if loggers.handlers.any fun (other, w) => other = name && v.same w then loggers
  else { loggers with handlers := loggers.handlers ++ [(name, v)] }

def removeHandler (name : String) (v : Value) : Loggers :=
  { loggers with
    handlers := loggers.handlers.filter fun (other, w) => !(other = name && v.same w) }

/-- No value is a handler that can write, so an entry of a logger with one cannot be passed on. -/
def passOn (name : String) : Except Fault Unit :=
  if loggers.handlers.any fun (other, _) => (lineage name).contains other then
    .error .missingAttribute
  else .ok ()

end Loggers

end Logging

end ExamAdmission
