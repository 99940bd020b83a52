import ExamAdmission.Logging.Call
import ExamAdmission.Logging.Template
import ExamAdmission.Text.Characters

/-! Log lines: the fields that are written of an entry, and how many lines they take for a reader.
Lines of the library's own loggers name the component that they come from. -/

namespace ExamAdmission

namespace Logging

/-- The component in the name of a logger of the library. -/
def component? (logger : String) : Option String :=
  match logger.splitOn "." with
  | "admission" :: component :: _ => some component
  | _ => none

/-- The fields of a line with the component, if its logger has one. The name of a logger is a
text. -/
def addComponent (fields : List (String × Value)) : Except Fault (List (String × Value)) :=
  match (field? "logger" fields).getD (.text "") with
  | .text logger => match component? logger with
    | some component => .ok (putField "component" (.text component) fields)
    | none => .ok fields
  | _ => .error .missingAttribute

def labelled : Value → Except Fault Value
  | .object fields => do return .object (← addComponent fields)
  | _ => .error .missingAttribute

/-- Fields that ask for a time stamp, an exception or a stack trace, which lines do not have. -/
def requestNames : List String := ["timestamp", "exc_info", "stack_info"]

def withEvent (event : Value) (fields : List (String × Value)) : List (String × Value) :=
  match event with
  | .null => fields
  | v => putField "event" v fields

/-- The fields with positional arguments filled into the event. Arguments that do not hold are only
dropped, and null is no argument at all. -/
def fillEvent (fields : List (String × Value)) : Except Fault (List (String × Value)) :=
  match (field? "positional_args" fields).getD .null with
  | .null => .ok fields
  | v => do
    let others := fields.filter fun field => field.1 ≠ "positional_args"
    if !v.holds then return others
    let argument ← templateArgument v
    match field? "event" fields with
    | none => .error (.missingKey "event")
    | some (.text template) =>
      return putField "event" (.text (← Template.fill template argument)) others
    | some _ => .error .wrongKind

/-- The fields of the line of an entry. Its level and logger replace fields of these names, and a
record given as a field has no name. -/
def Entry.lineFields (entry : Entry) : Except Fault (List (String × Value)) := do
  match (field? "_record" entry.fields).getD .null with
  | .null =>
    let own := entry.fields.filter fun field => !requestNames.contains field.1
    let fields := putField "level" (.text entry.level)
      (putField "logger" (.text entry.logger) (withEvent entry.event own))
    addComponent (← fillEvent fields)
  | _ => .error .missingAttribute

/-- A written entry: its fields, and whether the text of an exception follows. -/
structure Line where
  fields : List (String × Value)
  traced : Bool

/-- The line of an entry, if it reaches the level of its logger. -/
def Entry.line? (entry : Entry) (level : Int) : Except Fault (Option Line) := do
  if entry.severity < level then return none
  return some ⟨← entry.lineFields, entry.traced⟩

namespace Line

/-- The object of a line that is written as JSON. The text of an exception is no JSON. -/
def object (line : Line) : Except Fault (List (String × Value)) :=
  if line.traced then .error (.notJson .malformed) else .ok line.fields

/-- The characters for which a text is written in quotes. -/
def quotedOver : List Char := [' ', '\t', '=', '\r', '\n', singleQuote, doubleQuote]

/-- The line breaks of a field's value for a reader. A text stands as it is unless blanks, quotes or
an equals sign are in it; everything else is written without breaks. -/
def valueBreaks : Value → Nat
  | .text s =>
    if s.toList.any quotedOver.contains then 0 else lineBreakCount s.toList
  | _ => 0

/-- The line breaks of a field for a reader. Three columns stand without their names, and traces
come below all columns. -/
def columnBreaks (name : String) (v : Value) : Nat :=
  if name = "stack" || name = "exception" then 0
  else if name = "event" || name = "logger" || name = "logger_name" then
    lineBreakCount v.shown.toList
  else lineBreakCount name.toList + valueBreaks v

def trace? (line : Line) (name : String) : Except Fault (Option (List Char)) :=
  match (field? name line.fields).getD .null with
  | .null => .ok none
  | .text s => .ok (some s.toList)
  | _ => .error .wrongKind

def separation : List Char := ['\n', '\n'] ++ List.replicate 79 '=' ++ ['\n']

/-- The text below the columns: each trace begins a line. -/
def below : Option (List Char) → Option (List Char) → List Char
  | none, none => []
  | some stack, none => '\n' :: stack
  | none, some exception => '\n' :: exception
  | some stack, some exception => '\n' :: stack ++ separation ++ '\n' :: exception

/-- The text with the exception being handled on a line of its own; there is none. -/
def withException (s : List Char) : List Char :=
  (if s.getLast? = some '\n' then s else s ++ ['\n']) ++ "NoneType: None".toList

/-- The number of lines that an entry takes for a reader: breaks inside the columns, which end in no
return, and those of the text below, after which the line ends. -/
def height (line : Line) : Except Fault Nat := do
  let traces := below (← line.trace? "stack") (← line.trace? "exception")
  let rest := if line.traced then withException traces else traces
  let columns := line.fields.foldl (fun total (name, v) => total + columnBreaks name v) 0
  return columns + lineBreakCount (rest ++ ['\n'])

end Line

end Logging

end ExamAdmission
