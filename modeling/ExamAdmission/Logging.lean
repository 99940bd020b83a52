import ExamAdmission.Logging.Line

/-! Logging: calls are made in order, and the lines of the entries that pass are written as JSON or
for a reader. The first fault ends it all; warnings that came before it stay. -/

namespace ExamAdmission

namespace Logging

/-- What one call leaves: a warning, what is written of an entry, and the loggers after it. -/
structure Trace (α : Type) where
  warning? : Option String
  written? : Option α
  loggers : Loggers

def unkeptPromise (method : String) : String :=
  "coroutine 'BoundLogger." ++ method ++ "' was never awaited"

def make {α : Type} (write : Line → Except Fault α) (loggers : Loggers) (call : Call) :
    Except Fault (Trace α) := do
  match ← call.outcome loggers with
  | .settled loggers => return ⟨none, none, loggers⟩
  | .promise method => return ⟨some (unkeptPromise method), none, loggers⟩
  | .entry entry =>
    match ← entry.line? (loggers.level entry.logger) with
    | none => return ⟨none, none, loggers⟩
    | some line =>
      let written ← write line
      loggers.passOn entry.logger
      return ⟨none, some written, loggers⟩

/-- What calls come to: their warnings, and what was written with the loggers after them all. -/
structure Transcript (α : Type) where
  warnings : List String
  result : Except Fault (α × Loggers)

def Transcript.after {α β : Type} (made : Transcript α) (f : α → Except Fault β) : Transcript β :=
  ⟨made.warnings, do
    let (written, loggers) ← made.result
    return (← f written, loggers)⟩

def makeAll {α : Type} (write : Line → Except Fault α) (loggers : Loggers) :
    List Value → Transcript (List α)
  | [] => ⟨[], .ok ([], loggers)⟩
  | data :: rest =>
    match do make write loggers (← Call.read data) with
    | .error e => ⟨[], .error e⟩
    | .ok trace =>
      let others := makeAll write trace.loggers rest
      ⟨trace.warning?.toList ++ others.warnings, do
        let (written, loggers) ← others.result
        return (trace.written?.toList ++ written, loggers)⟩

def makeEach {α : Type} (write : Line → Except Fault α) (loggers : Loggers) (data : Value) :
    Transcript (List α) :=
  match data.elements with
  | .ok calls => makeAll write loggers calls
  | .error e => ⟨[], .error e⟩

/-- The JSON objects that calls write. They are read when all calls have been made. -/
def objects (loggers : Loggers) (data : Value) : Transcript (List (List (String × Value))) :=
  (makeEach .ok loggers data).after fun lines => lines.mapM Line.object

/-- The number of lines that calls write for a reader. -/
def height (loggers : Loggers) (data : Value) : Transcript Nat :=
  (makeEach Line.height loggers data).after fun heights => .ok (heights.foldl (· + ·) 0)

end Logging

end ExamAdmission
