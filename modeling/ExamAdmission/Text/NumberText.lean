import ExamAdmission.Arithmetic.Decimal

/-! The written form of numbers. Doubles are written with the fewest digits that read back, in
positions while the leading digit stands between 10^-4 and 10^15, and with an exponent beyond. -/

namespace ExamAdmission

/-- The decisions that a layout of decimals leaves open. -/
structure DecimalLayout where
  /-- the least and the greatest exponent of the leading digit that is written in positions -/
  firstPlain : Int
  lastPlain : Int
  /-- the fewest digits of an exponent -/
  exponentWidth : Nat
  /-- what follows a whole number that is written in positions -/
  wholeEnding : String

/-- The layout of all doubles that the library writes. -/
def DecimalLayout.standard : DecimalLayout where
  firstPlain := -4
  lastPlain := 15
  exponentWidth := 2
  wholeEnding := ".0"

namespace DecimalLayout

def zeros (n : Nat) : List Char := List.replicate n '0'

/-- Digits with the point after `point` of them, counted from the first; it may stand before the
first digit or after the last. -/
def positional (layout : DecimalLayout) (digits : List Char) (point : Int) : List Char :=
  if point ≤ 0 then '0' :: '.' :: zeros (-point).toNat ++ digits
  else if (digits.length : Int) ≤ point then
    digits ++ zeros (point.toNat - digits.length) ++ layout.wholeEnding.toList
  else digits.take point.toNat ++ '.' :: digits.drop point.toNat

/-- An exponent, always with a sign. -/
def power (layout : DecimalLayout) (exponent : Int) : List Char :=
  let digits := Nat.toDigits 10 exponent.natAbs
  'e' :: (if exponent < 0 then '-' else '+') ::
    zeros (layout.exponentWidth - digits.length) ++ digits

/-- One digit, a point if more follow, and an exponent. -/
def scientific (layout : DecimalLayout) (digits : List Char) (exponent : Int) : List Char :=
  digits.take 1 ++ (if digits.length ≤ 1 then [] else '.' :: digits.drop 1) ++ layout.power exponent

/-- coefficient · 10^exponent, for a coefficient without trailing zeros. -/
def write (layout : DecimalLayout) (coefficient : Nat) (exponent : Int) : List Char :=
  let digits := Nat.toDigits 10 coefficient
  let leading := exponent + digits.length - 1
  if layout.firstPlain ≤ leading && leading ≤ layout.lastPlain then
    layout.positional digits (leading + 1)
  else layout.scientific digits leading

end DecimalLayout

def Binary64.text : Binary64 → String
  | .nan => "nan"
  | .infinite negative => if negative then "-inf" else "inf"
  | .finite negative m =>
    let sign := if negative then ['-'] else []
    let written :=
      if m.units = 0 then DecimalLayout.standard.write 0 0
      else DecimalLayout.standard.write m.shortest.1 m.shortest.2
    String.ofList (sign ++ written)

def integerText (n : Int) : String :=
  String.ofList ((if n < 0 then ['-'] else []) ++ Nat.toDigits 10 n.natAbs)

/-! Doubles rounded to a wanted number of digits. The exact value is rounded once, ties to even,
and written with all of the places, with an exponent, or in the shorter of the two ways. -/

inductive RoundedForm where
  | fixed
  | scientific
  | general
deriving DecidableEq

namespace Magnitude

/-- The nearest multiple of 10^-places, in these steps. -/
def atPlaces (m : Magnitude) (places : Nat) : Nat :=
  Direction.halfEven.quotient (m.units * Nat.pow 10 places) Binary64.unit

/-- The nearest decimal of `count` digits, and the exponent of its leading digit. The exact value is
units · 5^1074 · 10^-1074; a carry out of the digits moves the exponent. -/
def leadingDigits (m : Magnitude) (count : Nat) : Nat × Int :=
  let exact := m.units * Nat.pow 5 1074
  let length := decimalLength exact
  let rounded := Direction.halfEven.quotient (exact * Nat.pow 10 (count - length))
    (Nat.pow 10 (length - count))
  if m.units = 0 then (0, 0)
  else if rounded < Nat.pow 10 count then (rounded, (length : Int) - 1075)
  else (rounded / 10, (length : Int) - 1074)

end Magnitude

namespace RoundedForm

def padded (length n : Nat) : List Char :=
  let digits := Nat.toDigits 10 n
  List.replicate (length - digits.length) '0' ++ digits

/-- A point and the digits after it; the point alone only where it is wanted. -/
def afterPoint (pointed : Bool) (digits : List Char) : List Char :=
  if digits = [] && !pointed then [] else '.' :: digits

def dropEndZeros (digits : List Char) : List Char :=
  (digits.reverse.dropWhile (· = '0')).reverse

/-- All places; `trimmed` leaves out the zeros at their end. -/
def fixedText (pointed trimmed : Bool) (places : Nat) (m : Magnitude) : List Char :=
  let digits := padded (places + 1) (m.atPlaces places)
  let whole := digits.length - places
  let decimals := digits.drop whole
  digits.take whole ++ afterPoint pointed (if trimmed then dropEndZeros decimals else decimals)

/-- One digit before the point, the places after it, and an exponent. -/
def scientificText (pointed trimmed : Bool) (places : Nat) (m : Magnitude) : List Char :=
  let (n, exponent) := m.leadingDigits (places + 1)
  let digits := padded (places + 1) n
  let decimals := digits.drop 1
  digits.take 1 ++ afterPoint pointed (if trimmed then dropEndZeros decimals else decimals) ++
    DecimalLayout.standard.power exponent

/-- No double has as many digits. -/
def longestExact : Nat := 1100

/-- The text of a magnitude. The general form counts the precision in digits, is fixed while the
leading digit stands between 10^-4 and the last of them, and has zeros at its end only where the
point is wanted too. -/
def write (form : RoundedForm) (pointed : Bool) (precision : Nat) (m : Magnitude) : List Char :=
  match form with
  | .fixed => fixedText pointed false precision m
  | .scientific => scientificText pointed false precision m
  | .general =>
    let count := max (if pointed then precision else min precision longestExact) 1
    let exponent := (m.leadingDigits count).2
    if -4 ≤ exponent && exponent < count then
      fixedText pointed (!pointed) ((count : Int) - 1 - exponent).toNat m
    else scientificText pointed (!pointed) (count - 1) m

end RoundedForm

end ExamAdmission
