import ExamAdmission.Text.NumberText
import ExamAdmission.Text.Quoted

/-! Document values: what policies, assignments and assessments are made of. Whole numbers and
doubles are kept apart, and the fields of an object keep their order. -/

namespace ExamAdmission

inductive Value where
  | null
  | bool (b : Bool)
  | int (n : Int)
  | float (x : Binary64)
  | text (s : String)
  | list (items : List Value)
  | object (fields : List (String × Value))

instance : Inhabited Value := ⟨.null⟩

def field? (name : String) (fields : List (String × Value)) : Option Value := fields.lookup name

/-- The fields with one of them written; a new one goes to the end. -/
def putField (name : String) (v : Value) : List (String × Value) → List (String × Value)
  | [] => [(name, v)]
  | (other, w) :: rest =>
    if other = name then (name, v) :: rest else (other, w) :: putField name v rest

namespace Value

def kindName : Value → String
  | .null => "NoneType"
  | .bool _ => "bool"
  | .int _ => "int"
  | .float _ => "float"
  | .text _ => "str"
  | .list _ => "list"
  | .object _ => "dict"

/-- Null, false, zero and whatever is empty do not hold. -/
def holds : Value → Bool
  | .null => false
  | .bool b => b
  | .int n => n != 0
  | .float (.finite _ m) => m.units != 0
  | .float _ => true
  | .text s => s != ""
  | .list items => !items.isEmpty
  | .object fields => !fields.isEmpty

def separator : String := ", "

mutual

def written : Value → String
  | .null => "None"
  | .bool b => if b then "True" else "False"
  | .int n => integerText n
  | .float x => x.text
  | .text s => quoted s
  | .list items => "[" ++ separator.intercalate (writtenItems items) ++ "]"
  | .object fields => "\x7b" ++ separator.intercalate (writtenFields fields) ++ "\x7d"

def writtenItems : List Value → List String
  | [] => []
  | v :: rest => v.written :: writtenItems rest

def writtenFields : List (String × Value) → List String
  | [] => []
  | (name, v) :: rest => (quoted name ++ ": " ++ v.written) :: writtenFields rest

end

def shown : Value → String
  | .text s => s
  | v => v.written

end Value

/-- What a value is compared by when it names something. Numbers that are equal are one key,
whatever their kind, and lists and objects name nothing. -/
inductive Key where
  | null
  | number (position : Position)
  | nan
  | text (s : String)
deriving DecidableEq

/-- A number key for a double. -/
def Key.ofBinary64 (x : Binary64) : Key :=
  match x.position? with
  | some p => .number p
  | none => .nan

def Value.key? : Value → Option Key
  | .null => some .null
  | .bool b => some (.number (.ofInt (if b then 1 else 0)))
  | .int n => some (.number (.ofInt n))
  | .float x => some (.ofBinary64 x)
  | .text s => some (.text s)
  | .list _ => none
  | .object _ => none

/-! When two values are the same. Equal numbers are, of whatever kind, also inside lists and
objects; the fields of an object may stand in any order. -/

namespace Value

mutual

def same : Value → Value → Bool
  | .list items, .list others => sameItems items others
  | .object fields, .object others =>
    fields.length = others.length && sameFields fields others
  | v, w => match v.key?, w.key? with
    | some a, some b => a = b
    | _, _ => false

def sameItems : List Value → List Value → Bool
  | [], [] => true
  | v :: rest, w :: others => v.same w && sameItems rest others
  | _, _ => false

def sameFields : List (String × Value) → List (String × Value) → Bool
  | [], _ => true
  | (name, v) :: rest, others =>
    (match field? name others with
    | some w => v.same w
    | none => false) && sameFields rest others

end

end Value

end ExamAdmission
