import ExamAdmission.Document.Number
import ExamAdmission.Text.LowerCase

/-! Percents in decimal arithmetic. Doubles enter by their shortest decimals, so that exact ratios
stay exact: 57 of 100 is 57. -/

namespace ExamAdmission

/-- The decimal that a number is calculated with. -/
def Value.toDecimal (v : Value) : Except Fault Decimal := do
  return .ofBinary64 (← v.toBinary64)

/-- The share of a count that a fraction makes, not rounded to a whole number. -/
def shareOfCount (count : Int) (fraction : Binary64) : Except Fault Binary64 := do
  return (← liftArithmetic ((Decimal.ofInt count).mul (.ofBinary64 fraction))).toBinary64

/-- The share of a count, both read from values; the count must be whole. -/
def countFromPercent (total fraction : Value) : Except Fault Binary64 := do
  let part ← fraction.toBinary64
  match total.number? with
  | some (.int n) => shareOfCount n part
  | _ => .error .wrongKind

def fractionOfPercent (percent : Binary64) : Except Fault Binary64 := do
  return (← liftArithmetic ((Decimal.ofBinary64 percent).div (.ofInt 100))).toBinary64

/-- A value that does not hold counts as zero. -/
def Value.orZero (v : Value) : Value := if v.holds then v else .int 0

/-- How many percent of the required value were achieved. There is no percent of nothing. -/
def percentOf (achieved required : Value) : Except Fault Binary64 :=
  if required matches .null || required.isZero then .error (.percentOfNothing achieved required)
  else do
    let hundredfold ← liftArithmetic ((← achieved.orZero.toDecimal).mul (.ofInt 100))
    let reference ← required.toDecimal
    return (← liftArithmetic (hundredfold.div reference)).toBinary64

/-! Rounding policies. A type and a number of decimals make a rounder; it moves the shortest decimal
of a double to the nearest place (halves away from zero), up or down, or leaves it as it is. -/

inductive RoundingType where
  | none
  | normal
  | up
  | down
deriving DecidableEq

namespace RoundingType

def name : RoundingType → String
  | .none => "none"
  | .normal => "normal"
  | .up => "up"
  | .down => "down"

def all : List RoundingType := [.none, .normal, .up, .down]

def ofName? (s : String) : Option RoundingType := all.find? fun t => t.name = s

end RoundingType

inductive Rounder where
  | unchanged
  | toPlaces (bearing : Bearing) (places : Nat)
deriving DecidableEq

namespace Rounder

def round : Rounder → Binary64 → Except Fault Binary64
  | .unchanged, x => .ok x
  | .toPlaces bearing places, x => do
    return (← liftArithmetic ((Decimal.ofBinary64 x).toPlaces bearing places)).toBinary64

/-- The rounded number of a value. Without rounding the value is not even read. -/
def apply : Rounder → Value → Except Fault Value
  | .unchanged, v => .ok v
  | r, v => do return .float (← r.round (← v.toBinary64))

end Rounder

/-- The most decimals for which a last place exists. -/
def mostDecimals : Nat := 2000054

/-- The rounder that moves numbers to so many decimals. -/
def Bearing.rounder (bearing : Bearing) (decimals : Nat) : Except Fault Rounder :=
  if mostDecimals < decimals then .error (.arithmetic .invalidOperation)
  else .ok (.toPlaces bearing decimals)

def RoundingType.rounder (t : RoundingType) (decimals : Nat) : Except Fault Rounder :=
  match t with
  | .none => .ok .unchanged
  | .normal => Bearing.nearest.rounder decimals
  | .up => Bearing.ceiling.rounder decimals
  | .down => Bearing.floor.rounder decimals

def decimalsOf (v : Value) : Except Fault Nat :=
  match v with
  | .int n => if n < 0 then .error (.config (.invalidDecimals v)) else .ok n.toNat
  | _ => .error (.config (.invalidDecimals v))

/-- The name of a rounding type in lower case. What does not hold has an empty name. -/
def roundingNameOf (v : Value) : Except Fault String :=
  if v.holds then
    match v with
    | .text s => .ok (lowerCase s)
    | _ => .error .missingAttribute
  else .ok ""

/-- The rounder of a type and decimals given as values. Without rounding any decimals will do. -/
def rounderOf (type decimals : Value) : Except Fault Rounder := do
  match RoundingType.ofName? (← roundingNameOf type) with
  | none => .error (.config (.unknownRoundingType type))
  | some .none => .ok .unchanged
  | some t => t.rounder (← decimalsOf decimals)

end ExamAdmission
