import ExamAdmission.Arithmetic.Binary64
import ExamAdmission.Text.Characters

/-! Numbers read from text. A decimal has a sign, digits around at most one point, and an exponent;
infinity and the value that is no number have names. Texts differ in where underscores may stand. -/

namespace ExamAdmission

def isAsciiDigit (c : Char) : Bool := (asciiDigit? c).isSome

def digitsValue (s : List Char) : Nat :=
  s.foldl (fun n c => 10 * n + (asciiDigit? c).getD 0) 0

/-- The text without its underscores, if each stands between two digits; the flag says whether a
digit goes before. -/
def dropUnderscores : Bool → List Char → Option (List Char)
  | _, [] => some []
  | _, ['_'] => none
  | afterDigit, '_' :: c :: rest =>
    if afterDigit && isAsciiDigit c then (dropUnderscores true rest).map (c :: ·) else none
  | _, c :: rest => (dropUnderscores (isAsciiDigit c) rest).map (c :: ·)

/-- A leading sign, true for minus, and what follows. -/
def splitSign : List Char → Bool × List Char
  | '-' :: rest => (true, rest)
  | '+' :: rest => (false, rest)
  | s => (false, s)

def readExponent? : List Char → Option Int
  | [] => some 0
  | c :: rest =>
    let (negative, digits) := splitSign rest
    if (c = 'e' || c = 'E') && digits ≠ [] && digits.all isAsciiDigit then
      some (if negative then -(digitsValue digits : Int) else digitsValue digits)
    else none

def readDecimal? (s : List Char) : Option (Nat × Int) :=
  let (whole, afterWhole) := s.span isAsciiDigit
  let (fraction, rest) :=
    match afterWhole with
    | '.' :: t => t.span isAsciiDigit
    | t => ([], t)
  if whole = [] && fraction = [] then none
  else (readExponent? rest).map fun e => (digitsValue (whole ++ fraction), e - fraction.length)

/-- A number without sign that has a name, in any case. -/
def namedNumber? (negative : Bool) (s : List Char) : Option Binary64 :=
  let name := s.map Char.toLower
  if name = "nan".toList then some .nan
  else if name = "inf".toList || name = "infinity".toList then some (.infinite negative)
  else none

/-- The number that a text writes in ASCII with nothing around it and no underscores. -/
def readBinary64? (s : List Char) : Option Binary64 :=
  let (negative, body) := splitSign s
  match namedNumber? negative body with
  | some x => some x
  | none => (readDecimal? body).map fun (coefficient, exponent) =>
    .ofDecimal negative coefficient exponent

/-- The number that a text writes with decimal digits of any script, between white space. An
underscore may stand between two digits. -/
def Binary64.ofText? (s : String) : Option Binary64 := do
  let ascii := (trimBy isWhiteSpace s.toList).map fun c =>
    match digitValue? c with
    | some v => Char.ofNat (48 + v)
    | none => c
  readBinary64? (← dropUnderscores false ascii)

def hasDoubleUnderscore : List Char → Bool
  | '_' :: '_' :: _ => true
  | _ :: rest => hasDoubleUnderscore rest
  | [] => false

/-- The text without its underscores, if it has some, all of them inside and no two in a row. -/
def dropInnerUnderscores? (s : List Char) : Option (List Char) :=
  if s.head? = some '_' || s.getLast? = some '_' || hasDoubleUnderscore s || !s.contains '_' then
    none
  else some (s.filter (· ≠ '_'))

/-- The number that a text writes in ASCII: between white space, or else without any but with
underscores inside, wherever they stand. -/
def Binary64.ofAsciiText? (s : String) : Option Binary64 :=
  match readBinary64? (trimBy isWhiteSpace s.toList) with
  | some x => some x
  | none => (dropInnerUnderscores? s.toList).bind readBinary64?

inductive IntegerReading where
  | value (n : Int)
  | malformed
  | tooLong
deriving DecidableEq

/-- The most characters of an integer, its minus sign counted. -/
def longestInteger : Nat := 4300

/-- A leading minus sign, and what follows. -/
def splitMinus : List Char → Bool × List Char
  | '-' :: rest => (true, rest)
  | s => (false, s)

def bareInteger? (s : List Char) : Option Int :=
  let (negative, digits) := splitMinus s
  if digits = [] || !digits.all isAsciiDigit || (digits.head? = some '0' && digits ≠ ['0']) then
    none
  else some (if negative then -(digitsValue digits : Int) else digitsValue digits)

/-- Whether the sign and the digits that a text begins with are too many for an integer. A leading
zero ends the number. -/
def beginsTooLong (s : List Char) : Bool :=
  let (negative, body) := splitMinus s
  let digits := body.takeWhile isAsciiDigit
  digits.head? ≠ some '0' && longestInteger < digits.length + (if negative then 1 else 0)

/-- What follows zeros and underscores up to the next digit, sign or point. Before a point, and at
the end of the text, the last character passed over stays. -/
def afterZeros? : Char → List Char → Option (List Char)
  | last, [] => some [last]
  | last, c :: rest =>
    if c = '0' || c = '_' then afterZeros? c rest
    else if isAsciiDigit c || c = '-' then some (c :: rest)
    else if c = '.' then some (last :: c :: rest)
    else none

/-- A text that begins with a digit or a sign, without the zeros that lead it. -/
def dropZeros? : List Char → Option (List Char)
  | '0' :: rest => afterZeros? '0' rest
  | c :: rest => if isAsciiDigit c || c = '-' then some (c :: rest) else none
  | [] => none

/-- The text without a point that only zeros follow. -/
def dropZeroFraction (s : List Char) : List Char :=
  let ending := s.dropWhile (· ≠ '.')
  if 1 < ending.length && (ending.drop 1).all (· = '0') then s.takeWhile (· ≠ '.') else s

/-- The bare form of an integer that is written with white space around it, a plus sign, leading
zeros, a fraction of zeros or underscores. -/
def bareForm? (s : List Char) : Option (List Char) :=
  match trimBy isWhiteSpace s with
  | '+' :: '-' :: _ => none
  | trimmed => do
    let unsigned := if trimmed.head? = some '+' then trimmed.drop 1 else trimmed
    let (negative, body) := splitMinus unsigned
    let whole := dropZeroFraction (← dropZeros? body)
    let plain := (dropInnerUnderscores? whole).getD whole
    return if negative then '-' :: plain else plain

/-- An integer in its bare form, or in one that can be brought to it. -/
def readInteger (s : String) : IntegerReading :=
  if beginsTooLong s.toList then .tooLong
  else
    match bareInteger? s.toList with
    | some n => .value n
    | none =>
      match (bareForm? s.toList).filter fun bare => !beginsTooLong bare with
      | none => .malformed
      | some bare => match bareInteger? bare with
        | some n => .value n
        | none => .malformed

end ExamAdmission
