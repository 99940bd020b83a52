import ExamAdmission.Document.Number

/-! Tables in the order of first mention. A key keeps the form and the place that it was first
given, and the value that it was given last. -/

namespace ExamAdmission

/-- A value that names something, beside the key it is compared by. -/
structure Label where
  form : Value
  key : Key

/-- The label of a value; lists and objects have none. -/
def Value.label (v : Value) : Except Fault Label :=
  match v.key? with
  | some key => .ok ⟨v, key⟩
  | none => .error .wrongKind

def Label.ofText (s : String) : Label := ⟨.text s, .text s⟩

abbrev Table (α : Type) := List (Label × α)

namespace Table

variable {α : Type}

def find? (table : Table α) (key : Key) : Option α :=
  match table with
  | [] => none
  | (label, a) :: rest => if label.key = key then some a else find? rest key

def put (label : Label) (a : α) : Table α → Table α
  | [] => [(label, a)]
  | (other, b) :: rest =>
    if other.key = label.key then (other, a) :: rest else (other, b) :: put label a rest

def ofList (entries : List (Label × α)) : Table α :=
  entries.foldl (fun table (label, a) => put label a table) []

def keys (table : Table α) : List Key := table.map fun entry => entry.1.key

def values (table : Table α) : List α := table.map Prod.snd

theorem find?_put (label : Label) (a : α) (table : Table α) (key : Key) :
    (put label a table).find? key = if label.key = key then some a else table.find? key := by
  induction table with
  | nil => simp [put, find?]
  | cons entry rest ih =>
    obtain ⟨other, b⟩ := entry
    by_cases h : other.key = label.key
    · by_cases hk : label.key = key <;> simp [put, find?, h, hk]
    · rw [put, if_neg h, find?, find?, ih]
      by_cases hk : other.key = key
      · simp [hk, show ¬label.key = key from fun e => h (hk.trans e.symm)]
      · simp [hk]

end Table

end ExamAdmission
