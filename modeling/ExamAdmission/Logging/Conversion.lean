import ExamAdmission.Document.Number
import ExamAdmission.Text.NumberText

/-! Conversions: how a value is put into a message. A letter chooses text, a whole number in one of
three bases, a rounded number or a character; flags, width and precision choose its layout. -/

namespace ExamAdmission

structure Conversion where
  leftAligned : Bool
  signed : Bool
  spaced : Bool
  alternate : Bool
  zeroFilled : Bool
  width : Nat
  precision : Option Nat
  letter : Char

namespace Conversion

/-- The parts of a converted value: a sign, a mark of the base, and the rest. -/
structure Parts where
  sign : List Char
  mark : List Char
  body : List Char

variable (c : Conversion)

def capital : Bool := c.letter.isUpper

def inCase (s : List Char) : List Char := if c.capital then s.map Char.toUpper else s

/-- The sign of a number; flags ask for one where there is no minus. -/
def signOf (negative : Bool) : List Char :=
  if negative then ['-'] else if c.signed then ['+'] else if c.spaced then [' '] else []

/-- A converted text, cut to the precision. -/
def ofText (s : List Char) : Parts :=
  match c.precision with
  | some n => ⟨[], [], s.take n⟩
  | none => ⟨[], [], s⟩

/-- The largest number of digits that can be asked for. -/
def longestDigits : Nat := Nat.pow 2 31 - 4

/-- A whole number in a base, with zeros before it up to the precision. -/
def ofInteger (base : Nat) (n : Int) : Except Fault Parts :=
  let digits := Nat.toDigits base n.natAbs
  let mark := if c.alternate && base = 16 then ['0', 'x']
    else if c.alternate && base = 8 then ['0', 'o']
    else []
  let precision := c.precision.getD 0
  if longestDigits < precision then .error .outOfRange
  else
    let zeros := List.replicate (precision - digits.length) '0'
    .ok ⟨c.signOf (decide (n < 0)), c.inCase mark, c.inCase (zeros ++ digits)⟩

/-- A double rounded to the precision, which is six when none is given. -/
def ofDouble (form : RoundedForm) : Binary64 → Parts
  | .nan => ⟨c.signOf false, [], c.inCase "nan".toList⟩
  | .infinite negative => ⟨c.signOf negative, [], c.inCase "inf".toList⟩
  | .finite negative m =>
    let written := form.write c.alternate (c.precision.getD 6) m
    ⟨c.signOf negative, [], c.inCase written⟩

def wholePart (v : Value) : Except Fault Int := do
  match ← v.number with
  | .int n => return n
  | .float .nan => .error .unreadableNumber
  | .float (.infinite _) => .error .outOfRange
  | .float (.finite negative m) => return (Binary64.signedUnits negative m).tdiv Binary64.unit

def wholeOf (v : Value) : Except Fault Int :=
  match v.number? with
  | some (.int n) => .ok n
  | _ => .error .wrongKind

def characterOf : Value → Except Fault Char
  | .text s => match s.toList with
    | [c] => .ok c
    | _ => .error .wrongKind
  | v => do
    let n ← wholeOf v
    if 0 ≤ n && n < 0x110000 then return Char.ofNat n.toNat else .error .outOfRange

/-- A text with everything beyond ASCII escaped. -/
def inAscii (s : String) : List Char :=
  s.toList.flatMap fun c => if c.toNat < 0x80 then [c] else codeEscape c

def partsOf (v : Value) : Except Fault Parts :=
  match c.letter with
  | 's' => .ok (c.ofText v.shown.toList)
  | 'r' => .ok (c.ofText v.written.toList)
  | 'a' => .ok (c.ofText (inAscii v.written))
  | 'd' | 'i' | 'u' => do c.ofInteger 10 (← wholePart v)
  | 'o' => do c.ofInteger 8 (← wholeOf v)
  | 'x' | 'X' => do c.ofInteger 16 (← wholeOf v)
  | 'e' | 'E' => do return c.ofDouble .scientific (← (← v.number).toBinary64)
  | 'f' | 'F' => do return c.ofDouble .fixed (← (← v.number).toBinary64)
  | 'g' | 'G' => do return c.ofDouble .general (← (← v.number).toBinary64)
  | 'c' => do return ⟨[], [], [← characterOf v]⟩
  | _ => .error .malformedTemplate

/-- Whether the conversion writes a number, which can have zeros before it. -/
def numeric : Bool := !(['s', 'r', 'a', 'c'].contains c.letter)

/-- Parts in the width. Zeros are filled in between mark and rest, blanks around the whole. -/
def lay (parts : Parts) : List Char :=
  let content := parts.sign ++ parts.mark ++ parts.body
  let missing := c.width - content.length
  if c.leftAligned then content ++ List.replicate missing ' '
  else if c.numeric && c.zeroFilled then
    parts.sign ++ parts.mark ++ List.replicate missing '0' ++ parts.body
  else List.replicate missing ' ' ++ content

/-- Texts of this length are not made. -/
def memoryBound : Nat := Nat.pow 2 36

def apply (v : Value) : Except Fault (List Char) := do
  let parts ← c.partsOf v
  if memoryBound ≤ c.width then .error .outOfMemory else return c.lay parts

end Conversion

end ExamAdmission
