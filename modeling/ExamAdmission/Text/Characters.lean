/-! Classes of characters: blanks, digits, capitals and line breaks. A class is a set of code points,
most often given by ascending ranges. -/

namespace ExamAdmission

/-- Ranges of code points, both ends included. -/
abbrev CodeRanges := List (Nat × Nat)

def CodeRanges.has (ranges : CodeRanges) (c : Char) : Bool :=
  ranges.any fun range => range.1 ≤ c.toNat && c.toNat ≤ range.2

/-! White space: the 25 characters of the property `White_Space` of the Unicode standard. -/

def whiteSpace : CodeRanges :=
  [(0x9, 0xd), (0x20, 0x20), (0x85, 0x85), (0xa0, 0xa0), (0x1680, 0x1680), (0x2000, 0x200a),
   (0x2028, 0x2029), (0x202f, 0x202f), (0x205f, 0x205f), (0x3000, 0x3000)]

def isWhiteSpace (c : Char) : Bool := whiteSpace.has c

/-- The text between the first and the last character that a class does not hold. -/
def trimBy (p : Char → Bool) (s : List Char) : List Char :=
  ((s.dropWhile p).reverse.dropWhile p).reverse

/-! Decimal digits. The characters with a decimal digit value come in runs of ten, from zero to
nine, so the zeros name them all. -/

/-- The code points of the zeros of Unicode 14. -/
def zeroDigits : List Nat :=
  [0x30, 0x660, 0x6f0, 0x7c0, 0x966, 0x9e6, 0xa66, 0xae6, 0xb66, 0xbe6, 0xc66, 0xce6, 0xd66,
   0xde6, 0xe50, 0xed0, 0xf20, 0x1040, 0x1090, 0x17e0, 0x1810, 0x1946, 0x19d0, 0x1a80, 0x1a90,
   0x1b50, 0x1bb0, 0x1c40, 0x1c50, 0xa620, 0xa8d0, 0xa900, 0xa9d0, 0xa9f0, 0xaa50, 0xabf0, 0xff10,
   0x104a0, 0x10d30, 0x11066, 0x110f0, 0x11136, 0x111d0, 0x112f0, 0x11450, 0x114d0, 0x11650,
   0x116c0, 0x11730, 0x118e0, 0x11950, 0x11c50, 0x11d50, 0x11da0, 0x16a60, 0x16ac0, 0x16b50,
   0x1d7ce, 0x1d7d8, 0x1d7e2, 0x1d7ec, 0x1d7f6, 0x1e140, 0x1e2f0, 0x1e950, 0x1fbf0]

def digitValue? (c : Char) : Option Nat :=
  (zeroDigits.find? fun z => z ≤ c.toNat && c.toNat ≤ z + 9).map (c.toNat - ·)

def asciiDigit? (c : Char) : Option Nat :=
  if '0' ≤ c && c ≤ '9' then some (c.toNat - 48) else none

/-! Capitals, as far as they are ASCII: a name in ASCII capitals can be spelled with the small
letters of ASCII and with a few other characters that have an ASCII capital form. -/

/-- The characters beyond ASCII whose capital form is in ASCII. -/
def asciiCapitalForms : List (Nat × String) :=
  [(0xdf, "SS"), (0x131, "I"), (0x17f, "S"), (0xfb00, "FF"), (0xfb01, "FI"), (0xfb02, "FL"),
   (0xfb03, "FFI"), (0xfb04, "FFL"), (0xfb05, "ST"), (0xfb06, "ST")]

/-- The capital form where it is in ASCII, otherwise the character itself. -/
def asciiCapital (c : Char) : List Char :=
  if 'a' ≤ c && c ≤ 'z' then [Char.ofNat (c.toNat - 32)]
  else match asciiCapitalForms.lookup c.toNat with
    | some form => form.toList
    | none => [c]

def asciiCapitals (s : String) : String := String.ofList (s.toList.flatMap asciiCapital)

/-! Line breaks. A text is broken into lines at more characters than the line feed, and a return
before a line feed breaks no line of its own. -/

def lineBreaks : CodeRanges :=
  [(0xa, 0xd), (0x1c, 0x1e), (0x85, 0x85), (0x2028, 0x2029)]

/-- The number of line breaks in a text; a return and a line feed after it are one. -/
def lineBreakCount : List Char → Nat
  | '\r' :: '\n' :: rest => lineBreakCount rest + 1
  | c :: rest => lineBreakCount rest + (if lineBreaks.has c then 1 else 0)
  | [] => 0

end ExamAdmission
