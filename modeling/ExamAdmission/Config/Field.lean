import ExamAdmission.Config.Error
import ExamAdmission.Document.Number

/-! Lenient reading of fields. A number may be given as a truth value or as text, a whole number
also as a double without fraction, and every field that cannot be read leaves its own issues. -/

namespace ExamAdmission

/-- A value, or every issue found on the way to it. -/
abbrev Checked (α : Type) := Except (List Issue) α

namespace Checked

variable {α β : Type}

def issues : Checked α → List Issue
  | .ok _ => []
  | .error found => found

/-- Both values, or the issues of both sides, those of the left first. -/
def and (x : Checked α) (y : Checked β) : Checked (α × β) :=
  match x, y with
  | .ok a, .ok b => .ok (a, b)
  | x, y => .error (x.issues ++ y.issues)

def within (name : String) : Checked α → Checked α
  | .ok a => .ok a
  | .error found => .error (found.map (Issue.within name))

def single (read : Value → Except IssueKind α) (v : Value) : Checked α :=
  match read v with
  | .ok a => .ok a
  | .error kind => .error [⟨kind, [], v⟩]

/-- A field that must be there. The input of a missing one is the whole object. -/
def required (fields : List (String × Value)) (name : String) (read : Value → Checked α) :
    Checked α :=
  match field? name fields with
  | some v => (read v).within name
  | none => .error [⟨.missing, [name], .object fields⟩]

def optional (fields : List (String × Value)) (name : String) (absent : α)
    (read : Value → Checked α) : Checked α :=
  match field? name fields with
  | some v => (read v).within name
  | none => .ok absent

/-- Refuses every field that has none of the known names. -/
def closed (fields : List (String × Value)) (known : List String) : Checked Unit :=
  match fields.filter fun (name, _) => !known.contains name with
  | [] => .ok ()
  | others => .error (others.map fun (name, v) => ⟨.unexpectedField, [name], v⟩)

end Checked

namespace Field

def text : Value → Except IssueKind String
  | .text s => .ok s
  | _ => .error .notText

def nonEmptyText : Value → Except IssueKind String
  | .text s => if s = "" then .error .emptyText else .ok s
  | _ => .error .notText

def number : Value → Except IssueKind Binary64
  | .float x => .ok x
  | .bool b => .ok (.ofDecimal false (if b then 1 else 0) 0)
  | .int n => (Binary64.ofInt? n).elim (.error .notNumber) .ok
  | .text s => match Binary64.ofAsciiText? s with
    | some x => .ok x
    | none => .error .unreadableNumber
  | _ => .error .notNumber

/-- A number from 0 to 100. The upper end is tested first, and what is no number fails there. -/
def percent (v : Value) : Except IssueKind Binary64 := do
  let x ← number v
  if !(Number.float x).le (.int 100) then .error .aboveHundred
  else if !(Number.int 0).le (.float x) then .error (.belowZero (.float (.zero false)))
  else .ok x

/-- 2^63, the end of the signed words of 64 bits. -/
def wordEnd : Nat := Nat.pow 2 63

/-- A whole number of smaller size than the end of the signed words. -/
def wholeOfFloat : Binary64 → Except IssueKind Int
  | .nan => .error .notFinite
  | .infinite _ => .error .notFinite
  | .finite negative m =>
    if m.units % Binary64.unit ≠ 0 then .error .fractional
    else
      let n := Binary64.signedUnits negative m / Binary64.unit
      if n.natAbs < wordEnd then .ok n else .error .integerTooLarge

def integer : Value → Except IssueKind Int
  | .int n => .ok n
  | .bool b => .ok (if b then 1 else 0)
  | .float x => wholeOfFloat x
  | .text s => match readInteger s with
    | .value n => .ok n
    | .malformed => .error .unreadableInteger
    | .tooLong => .error .integerTooLarge
  | _ => .error .notInteger

def natural (v : Value) : Except IssueKind Nat := do
  let n ← integer v
  if n < 0 then .error (.belowZero (.int 0)) else .ok n.toNat

end Field

end ExamAdmission
