import ExamAdmission.Document.Value
import ExamAdmission.Text.Numeral

/-! Documents read from JSON text. The names NaN, Infinity and -Infinity are numbers too, and of
two fields of one name the last value stands in the first place. -/

namespace ExamAdmission

/-- Why a text is no document: it is not JSON, it holds an integer of too many digits, or lists and
objects stand too deep in one another. -/
inductive JsonFault where
  | malformed
  | integerTooLong
  | tooDeep
deriving DecidableEq

namespace Json

def isJsonSpace (c : Char) : Bool := c = ' ' || c = '\t' || c = '\n' || c = '\r'

def skipSpace (s : List Char) : List Char := s.dropWhile isJsonSpace

def hexDigit? (c : Char) : Option Nat :=
  if '0' ≤ c && c ≤ '9' then some (c.toNat - 48)
  else if 'a' ≤ c && c ≤ 'f' then some (c.toNat - 87)
  else if 'A' ≤ c && c ≤ 'F' then some (c.toNat - 55)
  else none

def readUnit? : List Char → Option (Nat × List Char)
  | a :: b :: c :: d :: rest => do
    let a ← hexDigit? a
    let b ← hexDigit? b
    let c ← hexDigit? c
    let d ← hexDigit? d
    return (((a * 16 + b) * 16 + c) * 16 + d, rest)
  | _ => none

/-- The unit that follows as an escape of its own, if it is the second half of a pair. -/
def lowHalf? : List Char → Option (Nat × List Char)
  | '\\' :: 'u' :: rest => (readUnit? rest).filter fun (u, _) => 0xdc00 ≤ u && u ≤ 0xdfff
  | _ => none

/-- The character of an escaped unit. Two halves of a pair are one character, and half a pair
alone is replaced. -/
def joinHalves (unit : Nat) (rest : List Char) : Char × List Char :=
  if 0xd800 ≤ unit && unit ≤ 0xdbff then
    match lowHalf? rest with
    | some (low, after) => (Char.ofNat (0x10000 + (unit - 0xd800) * 0x400 + (low - 0xdc00)), after)
    | none => (Char.ofNat 0xfffd, rest)
  else if 0xdc00 ≤ unit && unit ≤ 0xdfff then (Char.ofNat 0xfffd, rest)
  else (Char.ofNat unit, rest)

def plainEscape? (c : Char) : Option Char :=
  if c = doubleQuote || c = '\\' || c = '/' then some c
  else if c = 'b' then some (Char.ofNat 8)
  else if c = 'f' then some (Char.ofNat 12)
  else if c = 'n' then some '\n'
  else if c = 'r' then some '\r'
  else if c = 't' then some '\t'
  else none

/-- The rest of a string after its opening quote; `done` holds the characters so far, last first.
Each step takes at least one character, so the length of the text is enough of them. -/
def readString : Nat → List Char → List Char → Except JsonFault (String × List Char)
  | 0, _, _ => .error .malformed
  | _ + 1, _, [] => .error .malformed
  | steps + 1, done, c :: rest =>
    if c = doubleQuote then .ok (String.ofList done.reverse, rest)
    else if c.toNat < 0x20 then .error .malformed
    else if c = '\\' then
      match rest with
      | 'u' :: digits =>
        match readUnit? digits with
        | some (unit, after) =>
          let (joined, remaining) := joinHalves unit after
          readString steps (joined :: done) remaining
        | none => .error .malformed
      | e :: after =>
        match plainEscape? e with
        | some plain => readString steps (plain :: done) after
        | none => .error .malformed
      | [] => .error .malformed
    else readString steps (c :: done) rest

/-- The digits after a point; a point without digits is not read. -/
def readFraction (s : List Char) : List Char × List Char :=
  match s with
  | '.' :: rest =>
    let (digits, after) := rest.span isAsciiDigit
    if digits = [] then ([], s) else (digits, after)
  | _ => ([], s)

/-- An exponent; a letter without digits is not read. -/
def readPower (s : List Char) : Option Int × List Char :=
  match s with
  | c :: rest =>
    let (negative, body) := splitSign rest
    let (digits, after) := body.span isAsciiDigit
    let n : Int := digitsValue digits
    if (c = 'e' || c = 'E') && digits ≠ [] then (some (if negative then -n else n), after)
    else (none, s)
  | [] => (none, [])

/-- A number after its sign. Without point and exponent it is an integer. -/
def readNumber (negative : Bool) (s : List Char) : Except JsonFault (Value × List Char) :=
  let (whole, afterWhole) := s.span isAsciiDigit
  let (fraction, afterFraction) := readFraction afterWhole
  let (power, rest) := readPower afterFraction
  if whole = [] || (whole.length ≠ 1 && whole.head? = some '0') then .error .malformed
  else if fraction = [] && power.isNone then
    if longestInteger < whole.length then .error .integerTooLong
    else
      let n : Int := digitsValue whole
      .ok (.int (if negative then -n else n), rest)
  else
    .ok (.float (.ofDecimal negative (digitsValue (whole ++ fraction))
      (power.getD 0 - fraction.length)), rest)

def words : List (String × Value) :=
  [("null", .null), ("true", .bool true), ("false", .bool false), ("NaN", .float .nan),
   ("Infinity", .float (.infinite false)), ("-Infinity", .float (.infinite true))]

def readWord? (s : List Char) : Option (Value × List Char) :=
  words.findSome? fun (word, v) =>
    if word.toList.isPrefixOf s then some (v, s.drop word.length) else none

mutual

/-- A value with the blanks before it skipped; `levels` counts the lists and objects that it may
still stand for, one in another. -/
def readValue : Nat → Nat → List Char → Except JsonFault (Value × List Char)
  | 0, _, _ => .error .malformed
  | steps + 1, levels, s =>
    match skipSpace s with
    | [] => .error .malformed
    | c :: rest =>
      if c = doubleQuote then (readString rest.length.succ [] rest).map fun (t, r) => (.text t, r)
      else if c = '[' then
        match levels, skipSpace rest with
        | 0, _ => .error .tooDeep
        | _ + 1, ']' :: after => .ok (.list [], after)
        | inner + 1, _ => readItems steps inner [] rest
      else if c.toNat = 0x7b then
        match levels, skipSpace rest with
        | 0, _ => .error .tooDeep
        | inner + 1, d :: after =>
          if d.toNat = 0x7d then .ok (.object [], after)
          else readFields steps inner [] (d :: after)
        | _ + 1, [] => .error .malformed
      else
        match readWord? (c :: rest) with
        | some found => .ok found
        | none => if c = '-' then readNumber true rest else readNumber false (c :: rest)

def readItems : Nat → Nat → List Value → List Char → Except JsonFault (Value × List Char)
  | 0, _, _, _ => .error .malformed
  | steps + 1, levels, done, s => do
    let (v, rest) ← readValue steps levels s
    match skipSpace rest with
    | ',' :: after => readItems steps levels (v :: done) after
    | ']' :: after => .ok (.list (v :: done).reverse, after)
    | _ => .error .malformed

def readFields :
    Nat → Nat → List (String × Value) → List Char → Except JsonFault (Value × List Char)
  | 0, _, _, _ => .error .malformed
  | steps + 1, levels, done, s =>
    match skipSpace s with
    | [] => .error .malformed
    | c :: rest =>
      if c = doubleQuote then do
        let (name, afterName) ← readString rest.length.succ [] rest
        match skipSpace afterName with
        | ':' :: afterColon => do
          let (v, afterValue) ← readValue steps levels afterColon
          let fields := putField name v done
          match skipSpace afterValue with
          | [] => .error .malformed
          | d :: after =>
            if d = ',' then readFields steps levels fields after
            else if d.toNat = 0x7d then .ok (.object fields, after)
            else .error .malformed
        | _ => .error .malformed
      else .error .malformed

end

end Json

def deepestNesting : Nat := 987

/-- The document that a text holds, with blanks around it. Every step takes a character or goes
one level down, so twice the length bounds their number. -/
def Value.ofJson (s : List Char) : Except JsonFault Value := do
  let (v, rest) ← Json.readValue (2 * s.length + 2) deepestNesting s
  if Json.skipSpace rest = [] then .ok v else .error .malformed

end ExamAdmission
