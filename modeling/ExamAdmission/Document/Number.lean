import ExamAdmission.Fault

/-! Values as numbers. Truth values count as one and zero, whole numbers stay exact until a double
comes in, and comparisons are exact between all kinds. -/

namespace ExamAdmission

inductive Number where
  | int (n : Int)
  | float (x : Binary64)
deriving DecidableEq

namespace Number

def position? : Number → Option Position
  | .int n => some (.ofInt n)
  | .float x => x.position?

/-- Comparison; a value that is no number compares with nothing. -/
def le (a b : Number) : Bool := Position.leq? a.position? b.position?

def isZero (a : Number) : Bool := a.position? = some (.ofInt 0)

def toBinary64 : Number → Except Fault Binary64
  | .float x => .ok x
  | .int n => (Binary64.ofInt? n).elim (.error .outOfRange) .ok

/-- The sum of integers is exact, any other one is that of the doubles. -/
def add : Number → Number → Except Fault Number
  | .int a, .int b => .ok (.int (a + b))
  | a, b => do return .float ((← a.toBinary64).add (← b.toBinary64))

def toValue : Number → Value
  | .int n => .int n
  | .float x => .float x

end Number

namespace Value

def number? : Value → Option Number
  | .bool b => some (.int (if b then 1 else 0))
  | .int n => some (.int n)
  | .float x => some (.float x)
  | _ => none

def number (v : Value) : Except Fault Number :=
  match v.number? with
  | some a => .ok a
  | none => .error .wrongKind

/-- The double of a number or of a text that writes one. -/
def toBinary64 : Value → Except Fault Binary64
  | .text s => match Binary64.ofText? s with
    | some x => .ok x
    | none => .error .unreadableNumber
  | v => do (← v.number).toBinary64

def isZero (v : Value) : Bool :=
  match v.number? with
  | some a => a.isZero
  | none => false

/-- The sum from left to right, from the integer zero. -/
def sum (vs : List Value) : Except Fault Number :=
  vs.foldlM (fun total v => do total.add (← v.number)) (.int 0)

end Value

end ExamAdmission
