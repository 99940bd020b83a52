import ExamAdmission.Logging.Conversion

/-! Message templates. A percent sign begins a conversion; its value is the argument itself, once,
or the value of a name in the argument, and two percent signs stand for one. -/

namespace ExamAdmission

/-- What the conversions of a template take their values from. -/
structure Arguments where
  /-- where names are looked up; a text has no names -/
  source : Option Value
  current : Value
  /-- whether the current value has not been taken -/
  fresh : Bool

namespace Arguments

def ofValue (v : Value) : Arguments :=
  match v with
  | .text _ => ⟨none, v, true⟩
  | _ => ⟨some v, v, true⟩

def next (args : Arguments) : Except Fault (Value × Arguments) :=
  if args.fresh then .ok (args.current, { args with fresh := false }) else .error .wrongKind

/-- The arguments with the value of a name as the current one. Only objects have names. -/
def named (args : Arguments) (name : String) : Except Fault Arguments :=
  match args.source with
  | some (.object fields) => match field? name fields with
    | some v => .ok { args with current := v, fresh := true }
    | none => .error (.missingKey name)
  | _ => .error .wrongKind

/-- An argument without names has to be taken. -/
def settled (args : Arguments) : Bool := !args.fresh || args.source.isSome

end Arguments

namespace Template

/-- A name up to the parenthesis that closes it, past so many open ones; `done` holds the
characters so far, last first. -/
def readName? : Nat → List Char → List Char → Option (String × List Char)
  | _, _, [] => none
  | opened, done, ')' :: rest =>
    match opened with
    | 0 => some (String.ofList done.reverse, rest)
    | inner + 1 => readName? inner (')' :: done) rest
  | opened, done, '(' :: rest => readName? (opened + 1) ('(' :: done) rest
  | opened, done, c :: rest => readName? opened (c :: done) rest

/-- The arguments after a name in parentheses, if there is one. -/
def readNamed (args : Arguments) : List Char → Except Fault (Arguments × List Char)
  | '(' :: rest =>
    if args.source.isNone then .error .wrongKind
    else match readName? 0 [] rest with
      | some (name, after) => do return (← args.named name, after)
      | none => .error .malformedTemplate
  | s => .ok (args, s)

/-- A width or a precision: digits, or a star for a whole number among the arguments. Both are
smaller than `bound`, and no more than that below zero. -/
def readSize (bound : Nat) (args : Arguments) :
    List Char → Except Fault (Int × Arguments × List Char)
  | '*' :: rest => do
    let (v, args) ← args.next
    let n ← Conversion.wholeOf v
    if -(bound : Int) ≤ n && n < bound then return (n, args, rest) else .error .outOfRange
  | s =>
    let n := digitsValue (s.takeWhile isAsciiDigit)
    if n < bound then .ok (n, args, s.dropWhile isAsciiDigit) else .error .malformedTemplate

def widthBound : Nat := Nat.pow 2 63

def precisionBound : Nat := Nat.pow 2 31

def readPrecision (args : Arguments) :
    List Char → Except Fault (Option Nat × Arguments × List Char)
  | '.' :: rest => do
    let (n, args, after) ← readSize precisionBound args rest
    return (some n.toNat, args, after)
  | s => .ok (none, args, s)

def isFlag (c : Char) : Bool := c = '-' || c = '+' || c = ' ' || c = '#' || c = '0'

def dropSizeLetter : List Char → List Char
  | 'h' :: rest => rest
  | 'l' :: rest => rest
  | 'L' :: rest => rest
  | s => s

/-- The conversion after a percent sign: a name, flags, width, precision and letter. -/
def readConversion (args : Arguments) (s : List Char) :
    Except Fault (Conversion × Arguments × List Char) := do
  let (args, s) ← readNamed args s
  let flags := s.takeWhile isFlag
  let (width, args, s) ← readSize widthBound args (s.dropWhile isFlag)
  let (precision, args, s) ← readPrecision args s
  match dropSizeLetter s with
  | [] => .error .malformedTemplate
  | letter :: rest =>
    let conversion : Conversion := {
      leftAligned := flags.contains '-' || width < 0
      signed := flags.contains '+'
      spaced := flags.contains ' '
      alternate := flags.contains '#'
      zeroFilled := flags.contains '0'
      width := width.natAbs
      precision := precision
      letter := letter }
    return (conversion, args, rest)

/-- The text of a template and the arguments that are left. Each step takes at least one character,
so the length of the template is enough of them. -/
def fillFrom : Nat → Arguments → List Char → Except Fault (List Char × Arguments)
  | 0, args, _ => .ok ([], args)
  | _ + 1, args, [] => .ok ([], args)
  | steps + 1, args, '%' :: '%' :: rest => do
    let (filled, args) ← fillFrom steps args rest
    return ('%' :: filled, args)
  | steps + 1, args, '%' :: rest => do
    let (conversion, args, rest) ← readConversion args rest
    let (v, args) ← args.next
    let text ← conversion.apply v
    let (filled, args) ← fillFrom steps args rest
    return (text ++ filled, args)
  | steps + 1, args, c :: rest => do
    let (filled, args) ← fillFrom steps args rest
    return (c :: filled, args)

def fill (template : String) (argument : Value) : Except Fault String := do
  let s := template.toList
  let (filled, args) ← fillFrom s.length (.ofValue argument) s
  if args.settled then return String.ofList filled else .error .wrongKind

end Template

end ExamAdmission
