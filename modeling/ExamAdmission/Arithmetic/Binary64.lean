
/-! Whole numbers next to a quotient. Every rounding of the library, binary or decimal, is one of
these four choices between the two neighbours. -/

namespace ExamAdmission

inductive Direction where
  | down
  | up
  | halfUp
  | halfEven
deriving DecidableEq

def Direction.quotient (d : Direction) (num den : Nat) : Nat :=
  let whole := num / den
  let rest := num % den
  match d with
  | .down => whole
  | .up => if rest = 0 then whole else whole + 1
  | .halfUp => if 2 * rest < den then whole else whole + 1
  | .halfEven =>
    if 2 * rest < den then whole
    else if den < 2 * rest then whole + 1
    else if whole % 2 = 0 then whole
    else whole + 1

theorem Direction.quotient_le (d : Direction) (num den : Nat) :
    d.quotient num den ≤ num / den + 1 := by
  unfold Direction.quotient
  cases d <;> dsimp only <;> (repeat' split) <;> omega

theorem Direction.le_quotient (d : Direction) (num den : Nat) :
    num / den ≤ d.quotient num den := by
  unfold Direction.quotient
  cases d <;> dsimp only <;> (repeat' split) <;> omega

/-- The number of decimal digits; zero has one. -/
def decimalLength (n : Nat) : Nat := (Nat.toDigits 10 n).length

theorem decimalLength_le_iff {n k : Nat} (h : 0 < k) : decimalLength n ≤ k ↔ n < Nat.pow 10 k :=
  Nat.length_toDigits_le_iff (by decide) h

/-! Double precision numbers as exact integers. A magnitude is counted in the least positive one,
2^-1074, so order and sums are those of the integers, and only rounding is left to define. -/

/-- 2^1024, the end of the range, in units of 2^-1074. -/
def rangeEnd : Nat := Nat.pow 2 2098

theorem rangeEnd_pos : 0 < rangeEnd := by decide +kernel

/-- A natural number of 53 significant bits below 2^1024, counted in units of 2^-1074. -/
structure Magnitude where
  units : Nat
  lt_rangeEnd : units < rangeEnd
  significant : ∃ m s, m < Nat.pow 2 53 ∧ units = m * Nat.pow 2 s
deriving DecidableEq

/-- Double precision numbers; zero has two signs and there is one value that is no number. -/
inductive Binary64 where
  | nan
  | infinite (negative : Bool)
  | finite (negative : Bool) (magnitude : Magnitude)
deriving DecidableEq

/-- The nearest count of 53 significant bits to a quotient, ties to even. -/
def nearestUnits (num den : Nat) : Nat :=
  let spare := (num / den).log2 - 52
  Direction.halfEven.quotient num (den * Nat.pow 2 spare) * Nat.pow 2 spare

theorem nearestUnits_significant (num den : Nat) :
    ∃ m s, m < Nat.pow 2 53 ∧ nearestUnits num den = m * Nat.pow 2 s := by
  let spare := (num / den).log2 - 52
  let k := Direction.halfEven.quotient num (den * Nat.pow 2 spare)
  have hlt : num / den < Nat.pow 2 53 * Nat.pow 2 spare := by
    rcases Nat.eq_zero_or_pos (num / den) with h0 | h0
    · rw [h0]; exact Nat.mul_pos (by decide) (Nat.two_pow_pos spare)
    · have h := (Nat.log2_lt (k := 53 + spare) (Nat.ne_of_gt h0)).mp (by omega)
      rwa [Nat.pow_add] at h
  have hk : k ≤ Nat.pow 2 53 := by
    have h := Direction.quotient_le .halfEven num (den * Nat.pow 2 spare)
    have hd : num / (den * Nat.pow 2 spare) < Nat.pow 2 53 := by
      rw [← Nat.div_div_eq_div_mul]
      exact Nat.div_lt_of_lt_mul (Nat.mul_comm _ _ ▸ hlt)
    exact Nat.le_trans h hd
  rcases Nat.lt_or_eq_of_le hk with h | h
  · exact ⟨k, spare, h, rfl⟩
  · refine ⟨Nat.pow 2 52, spare + 1, by decide, ?_⟩
    have h2 : k = Nat.pow 2 52 * 2 := h.trans (by decide)
    calc k * Nat.pow 2 spare
      _ = Nat.pow 2 52 * 2 * Nat.pow 2 spare := congrArg (· * Nat.pow 2 spare) h2
      _ = Nat.pow 2 52 * (Nat.pow 2 spare * 2) := by
        rw [Nat.mul_assoc, Nat.mul_comm 2 (Nat.pow 2 spare)]

namespace Magnitude

def zero : Magnitude := ⟨0, rangeEnd_pos, 0, 0, by decide, by decide⟩

instance : Inhabited Magnitude := ⟨zero⟩

/-- The magnitude nearest to a quotient of units, unless it is 2^1024 or more. -/
def nearest? (num den : Nat) : Option Magnitude :=
  if h : nearestUnits num den < rangeEnd then
    some ⟨nearestUnits num den, h, nearestUnits_significant num den⟩
  else none

end Magnitude

namespace Binary64

def zero (negative : Bool) : Binary64 := .finite negative .zero

instance : Inhabited Binary64 := ⟨zero false⟩

/-- One, in units. -/
def unit : Nat := Nat.pow 2 1074

/-- The number nearest to a signed quotient of units; beyond the range it is infinite. -/
def ofUnits (negative : Bool) (num den : Nat) : Binary64 :=
  (Magnitude.nearest? num den).elim (.infinite negative) (.finite negative)

def ofInt? (n : Int) : Option Binary64 :=
  (Magnitude.nearest? (n.natAbs * unit) 1).map (.finite (decide (n < 0)))

/-- The number nearest to ± coefficient · 10^exponent. Decimals beyond 10^310 are infinite and
those below 10^-330 are zero, so no power of a far exponent is ever formed. -/
def ofDecimal (negative : Bool) (coefficient : Nat) (exponent : Int) : Binary64 :=
  let top := exponent + decimalLength coefficient
  if coefficient = 0 || top < -330 then zero negative
  else if 310 < top then .infinite negative
  else
    ofUnits negative (coefficient * Nat.pow 10 exponent.toNat * unit) (Nat.pow 10 (-exponent).toNat)

def signedUnits (negative : Bool) (m : Magnitude) : Int :=
  if negative then -(m.units : Int) else m.units

/-- The sum, rounded once. Opposite numbers give positive zero, opposite infinities no number. -/
def add : Binary64 → Binary64 → Binary64
  | .nan, _ => .nan
  | _, .nan => .nan
  | .infinite a, .infinite b => if a = b then .infinite a else .nan
  | .infinite a, .finite _ _ => .infinite a
  | .finite _ _, .infinite b => .infinite b
  | .finite a m, .finite b n =>
    let sum := signedUnits a m + signedUnits b n
    if sum = 0 then zero (a && b) else ofUnits (decide (sum < 0)) sum.natAbs 1

end Binary64

/-- A place on the number line with both ends, in units of 2^-1074. -/
inductive Position where
  | bottom
  | at (units : Int)
  | top
deriving DecidableEq

def Position.le : Position → Position → Bool
  | .bottom, _ => true
  | _, .top => true
  | .at a, .at b => decide (a ≤ b)
  | _, _ => false

instance : LE Position := ⟨fun a b => a.le b⟩

instance (a b : Position) : Decidable (a ≤ b) := inferInstanceAs (Decidable (a.le b = true))

def Position.ofInt (n : Int) : Position := .at (n * Binary64.unit)

def Binary64.position? : Binary64 → Option Position
  | .nan => none
  | .infinite negative => some (if negative then .bottom else .top)
  | .finite negative m => some (.at (signedUnits negative m))

/-- Comparison of two places, false when one of them is missing. -/
def Position.leq? : Option Position → Option Position → Bool
  | some a, some b => a.le b
  | _, _ => false

end ExamAdmission
