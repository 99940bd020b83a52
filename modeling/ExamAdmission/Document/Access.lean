import ExamAdmission.Document.Number

/-! Access to what is in a value: by name, under more than one spelling of it, or one part after the
other. Only objects have fields; asking anything else for one is a fault. -/

namespace ExamAdmission

def hasRun (part : List Char) : List Char → Bool
  | [] => part.isEmpty
  | c :: rest => part.isPrefixOf (c :: rest) || hasRun part rest

namespace Value

def isText (name : String) : Value → Bool
  | .text s => s = name
  | _ => false

/-- Whether a name is in a value: among the fields of an object, the items of a list, or the
characters of a text. -/
def mentions (name : String) : Value → Except Fault Bool
  | .object fields => .ok (field? name fields).isSome
  | .list items => .ok (items.any (isText name))
  | .text s => .ok (hasRun name.toList s.toList)
  | _ => .error .wrongKind

def item (name : String) : Value → Except Fault Value
  | .object fields => match field? name fields with
    | some v => .ok v
    | none => .error (.missingKey name)
  | _ => .error .wrongKind

/-- The field under the first spelling that is present. A present null counts. -/
def pick? (data : Value) : List String → Except Fault (Option Value)
  | [] => .ok none
  | name :: others => do
    if ← data.mentions name then return some (← data.item name) else data.pick? others

/-- The values that a value is made of: items of a list, characters of a text, names of an
object. -/
def elements : Value → Except Fault (List Value)
  | .list items => .ok items
  | .text s => .ok (s.toList.map fun c => .text (String.singleton c))
  | .object fields => .ok (fields.map fun (name, _) => .text name)
  | _ => .error .wrongKind

/-- The two elements of a value that has just as many. -/
def pair (v : Value) : Except Fault (Value × Value) := do
  match ← v.elements with
  | [a, b] => return (a, b)
  | _ => .error .wrongLength

end Value

/-- A record from the fields of an object: the values in the order of the names, each given or by
its default. A missing field without default and a field of another name are faults. -/
def recordOf (names : List (String × Option Value)) : Value → Except Fault (List Value)
  | .object fields =>
    if fields.any fun (name, _) => (names.lookup name).isNone then .error .wrongKind
    else names.mapM fun (name, absent) =>
      match field? name fields, absent with
      | some v, _ => .ok v
      | none, some v => .ok v
      | none, none => .error .wrongKind
  | _ => .error .wrongKind

end ExamAdmission
