import ExamAdmission.Arithmetic.Binary64

/-! Decimal numbers of 28 significant digits. Products and quotients are exact or rounded once to
28 digits, ties to even; a fixed number of places is refused when it would need more digits. -/

namespace ExamAdmission

/-- ± coefficient · 10^exponent, beside the infinities and the value that is no number. -/
inductive Decimal where
  | nan
  | infinite (negative : Bool)
  | finite (negative : Bool) (coefficient : Nat) (exponent : Int)
deriving DecidableEq

/-- An operation without a result: an undefined one, or a quotient by zero. -/
inductive ArithmeticFault where
  | invalidOperation
  | divisionByZero
deriving DecidableEq

/-- Which way a number is moved to its fixed places. -/
inductive Bearing where
  | nearest
  | ceiling
  | floor
deriving DecidableEq

/-- What a bearing does to a magnitude: the ceiling of a negative number lies towards zero, and
the nearest place of a tie away from it. -/
def Bearing.direction (negative : Bool) : Bearing → Direction
  | .nearest => .halfUp
  | .ceiling => if negative then .down else .up
  | .floor => if negative then .up else .down

namespace Decimal

def precision : Nat := 28

def ofInt (n : Int) : Decimal := .finite (decide (n < 0)) n.natAbs 0

/-- ± num / den · 10^exponent with at most 28 digits. A quotient is rounded correctly when its
whole part already has them all. -/
def significant (negative : Bool) (num den : Nat) (exponent : Int) : Decimal :=
  let spare := decimalLength (num / den) - precision
  .finite negative (Direction.halfEven.quotient num (den * Nat.pow 10 spare)) (exponent + spare)

def mul : Decimal → Decimal → Except ArithmeticFault Decimal
  | .nan, _ => .ok .nan
  | _, .nan => .ok .nan
  | .infinite a, .infinite b => .ok (.infinite (a != b))
  | .infinite a, .finite b n _ =>
    if n = 0 then .error .invalidOperation else .ok (.infinite (a != b))
  | .finite a m _, .infinite b =>
    if m = 0 then .error .invalidOperation else .ok (.infinite (a != b))
  | .finite a m e, .finite b n f => .ok (significant (a != b) (m * n) 1 (e + f))

/-- How far a dividend is extended so that the whole part of the quotient has 28 digits. -/
def extension (divisor : Nat) : Nat := precision + decimalLength divisor

def div : Decimal → Decimal → Except ArithmeticFault Decimal
  | .nan, _ => .ok .nan
  | _, .nan => .ok .nan
  | .infinite _, .infinite _ => .error .invalidOperation
  | .infinite a, .finite b _ _ => .ok (.infinite (a != b))
  | .finite a _ _, .infinite b => .ok (.finite (a != b) 0 0)
  | .finite a m e, .finite b n f =>
    if n = 0 then .error (if m = 0 then .invalidOperation else .divisionByZero)
    else .ok (significant (a != b) (m * Nat.pow 10 (extension n)) n (e - f - extension n))

/-- The multiple of 10^-places that a bearing leads to. Zero is a multiple for every number of
places; any other result must have at most 28 digits. -/
def toPlaces (bearing : Bearing) (places : Nat) : Decimal → Except ArithmeticFault Decimal
  | .nan => .ok .nan
  | .infinite _ => .error .invalidOperation
  | .finite negative coefficient exponent =>
    if coefficient = 0 then .ok (.finite negative 0 (-places))
    else
      let shift := exponent + places
      if precision < shift then .error .invalidOperation
      else
        let multiple := (bearing.direction negative).quotient
          (coefficient * Nat.pow 10 shift.toNat) (Nat.pow 10 (-shift).toNat)
        if multiple < Nat.pow 10 precision then .ok (.finite negative multiple (-places))
        else .error .invalidOperation

def toBinary64 : Decimal → Binary64
  | .nan => .nan
  | .infinite negative => .infinite negative
  | .finite negative coefficient exponent => .ofDecimal negative coefficient exponent

end Decimal

/-! The decimal of fewest digits that reads back to a double. Grids 10^e are tried from coarse to
fine; the first that has a neighbour of the magnitude reading back gives the digits. -/

namespace Magnitude

def readsBack (m : Magnitude) (n : Nat) (e : Int) : Bool :=
  Binary64.ofDecimal false n e = .finite false m

/-- The multiple of 10^e that reads back, of the two next to the magnitude. When both do, the
nearer one, and of two equally near ones the even one. -/
def onGrid? (m : Magnitude) (e : Int) : Option Nat :=
  let num := m.units * Nat.pow 10 (-e).toNat
  let den := Binary64.unit * Nat.pow 10 e.toNat
  let low := num / den
  match m.readsBack low e, m.readsBack (low + 1) e with
  | true, true => some (Direction.halfEven.quotient num den)
  | true, false => some low
  | false, true => some (low + 1)
  | false, false => none

/-- A power of ten above the magnitude: 2^13 < 10^4 above one and 10^3 < 2^10 below. -/
def coarsest (m : Magnitude) : Int :=
  let power := (m.units.log2 : Int) - 1073
  if 0 ≤ power then power * 4 / 13 + 1 else power * 3 / 10 + 1

/-- The first grid with a hit, of so many from 10^e downwards; after them the exact value. -/
def search (m : Magnitude) : Nat → Int → Nat × Int
  | 0, _ => (m.units * Nat.pow 5 1074, -1074)
  | steps + 1, e =>
    match m.onGrid? e with
    | some n => (n, e)
    | none => search m steps (e - 1)

def shortest (m : Magnitude) : Nat × Int := m.search 30 m.coarsest

end Magnitude

def Decimal.ofBinary64 : Binary64 → Decimal
  | .nan => .nan
  | .infinite negative => .infinite negative
  | .finite negative m =>
    if m.units = 0 then .finite negative 0 0
    else .finite negative m.shortest.1 m.shortest.2

end ExamAdmission
