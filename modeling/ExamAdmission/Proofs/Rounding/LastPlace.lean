import ExamAdmission.Proofs.Arithmetic.FewestDigits
import ExamAdmission.Proofs.Config.Places
import ExamAdmission.Proofs.Config.Readers
import ExamAdmission.Proofs.Rounding.Order

/-! Rounding to a last place. The digits that a double is printed with are fewer than 28, so what is
rounded away never adds a digit too many, and a rounder fails just where the number itself has more
than 28 digits down to the last place. -/

namespace ExamAdmission

attribute [local irreducible] rangeEnd Binary64.unit

/-- The rational that a decimal denotes. -/
def Decimal.value : Decimal → ℚ
  | .finite negative c e => signed negative (c * 10 ^ e)
  | _ => 0

/-- The double next to a rational, the even one of two. -/
def Binary64.IsNearest (q : ℚ) (x : Binary64) : Prop :=
  ∃ negative w, 0 ≤ w ∧ signed negative w = q ∧ Nearest negative (w * unit) x

namespace Bearing

variable {bearing : Bearing} {a : Bool} {q : ℚ} {m : ℕ}

def type : Bearing → RoundingType
  | .nearest => .normal
  | .ceiling => .up
  | .floor => .down

theorem roundingNameOf_type (bearing : Bearing) :
    roundingNameOf (.text bearing.type.name) = .ok bearing.type.name := by
  have hholds : (Value.text bearing.type.name).holds = true := by cases bearing <;> decide
  simp only [roundingNameOf, hholds, Field.lowerCase_name, if_true]

theorem rounderOf_of_name {type decimals : Value}
    (h : roundingNameOf type = .ok bearing.type.name) :
    rounderOf type decimals = decimalsOf decimals >>= bearing.rounder := by
  unfold rounderOf
  rw [h]
  cases bearing <;> (simp only [bind, Except.bind, Field.ofName?_eq_some.mpr rfl]; rfl)

theorem rounderOf_type (bearing : Bearing) (decimals : ℕ) :
    rounderOf (.text bearing.type.name) (.int decimals) = bearing.rounder decimals := by
  have hdecimals : decimalsOf (.int decimals) = .ok decimals := by
    rw [decimalsOf, if_neg (Int.not_lt.mpr (Int.natCast_nonneg decimals)), Int.toNat_natCast]
  rw [rounderOf_of_name bearing.roundingNameOf_type, hdecimals]
  rfl

/-- The whole number that a bearing leads to. Of two that are equally near it is the one away from
zero. -/
def whole (bearing : Bearing) (q : ℚ) : ℤ :=
  match bearing with
  | .nearest => if q < 0 then -⌊1 / 2 - q⌋ else ⌊q + 1 / 2⌋
  | .ceiling => ⌈q⌉
  | .floor => ⌊q⌋

theorem whole_of_rounds (hq : 0 ≤ q) (h : (bearing.direction false).Rounds q m) :
    bearing.whole q = m := by
  cases bearing with
  | nearest =>
    rw [whole, if_neg (not_lt.mpr hq), Int.floor_eq_iff, Int.cast_natCast]
    constructor <;> linarith [h.1, h.2]
  | ceiling =>
    rw [whole, Int.ceil_eq_iff, Int.cast_natCast]
    exact h
  | floor =>
    rw [whole, Int.floor_eq_iff, Int.cast_natCast]
    exact h

theorem whole_neg_of_rounds (hq : 0 ≤ q) (h : (bearing.direction true).Rounds q m) :
    bearing.whole (-q) = -(m : ℤ) := by
  cases bearing with
  | nearest =>
    rcases hq.eq_or_lt with rfl | hpos
    · rw [← Nat.cast_zero] at h
      rw [h.eq_natCast]
      norm_num [whole]
    · rw [whole, if_pos (neg_neg_of_pos hpos), neg_inj, Int.floor_eq_iff, Int.cast_natCast]
      constructor <;> linarith [h.1, h.2]
  | ceiling =>
    -- the magnitude of a negative number goes down when the number goes up
    rw [whole, Int.ceil_eq_iff, Int.cast_neg, Int.cast_natCast]
    constructor <;> linarith [h.1, h.2]
  | floor =>
    rw [whole, Int.floor_eq_iff, Int.cast_neg, Int.cast_natCast]
    constructor <;> linarith [h.1, h.2]

theorem whole_signed (hq : 0 ≤ q) (h : (bearing.direction a).Rounds q m) :
    (bearing.whole (signed a q) : ℚ) = signed a m := by
  cases a with
  | false => simp [signed, whole_of_rounds hq h]
  | true => simp [signed, whole_neg_of_rounds hq h]

end Bearing

theorem Direction.Rounds.lt_iff_of_few {d : Direction} {c m : ℕ} {e : ℤ} (hc : c < 10 ^ 27)
    (h : d.Rounds (c * 10 ^ e) m) : m < 10 ^ 28 ↔ (c : ℚ) * 10 ^ e < 10 ^ 28 := by
  constructor
  · intro hm
    by_contra hle
    have hmany : 10 ^ 28 ≤ m := h.natCast_le (by exact_mod_cast not_lt.mp hle)
    omega
  · intro hlt
    rcases Int.le_total 0 e with he | he
    · obtain ⟨k, rfl⟩ := Int.eq_ofNat_of_zero_le he
      have hcast : (c : ℚ) * 10 ^ (k : ℤ) = (c * 10 ^ k : ℕ) := by
        rw [zpow_natCast]
        push_cast
        rfl
      rw [hcast] at h hlt
      rw [h.eq_natCast]
      exact_mod_cast hlt
    · -- less than the digits is not rounded above them
      have hle : (c : ℚ) * 10 ^ e ≤ c :=
        mul_le_of_le_one_right c.cast_nonneg (zpow_le_one_of_nonpos₀ (by norm_num) he)
      have hfew : m ≤ c := h.le_natCast hle
      omega

namespace Magnitude

variable {m : Magnitude}

theorem value_eq_zero_iff {a : Bool} :
    (Decimal.ofBinary64 (.finite a m)).value = 0 ↔ m.units = 0 := by
  by_cases hm : m.units = 0
  · simp [Decimal.ofBinary64, hm, Decimal.value]
  · have hpos : (0 : ℚ) < m.shortest.1 * 10 ^ m.shortest.2 :=
      mul_pos (by exact_mod_cast pos_of_rounds hm (rounds_of_readsBack m.readsBack_shortest))
        (ten_zpow_pos _)
    rw [decimal_shortest a hm, Decimal.value]
    refine iff_of_false (fun hzero => hpos.ne' ?_) hm
    rw [← abs_signed (a := a) hpos.le, hzero, abs_zero]

end Magnitude

theorem Binary64.le_iff_value {x y : Binary64} (hx : x.IsFinite) (hy : y.IsFinite) :
    x ≤ y ↔ (Decimal.ofBinary64 x).value ≤ (Decimal.ofBinary64 y).value := by
  obtain ⟨a, m, rfl⟩ := hx
  obtain ⟨b, n, rfl⟩ := hy
  obtain ⟨c, e, hdec, -⟩ := Decimal.ofBinary64_finite a m
  obtain ⟨c', e', hdec', -⟩ := Decimal.ofBinary64_finite b n
  rw [hdec, hdec', Decimal.value, Decimal.value, ← Decimal.finite_le_finite, ← hdec, ← hdec']
  refine ⟨Decimal.ofBinary64_mono, fun hle => ?_⟩
  have hback := Decimal.toBinary64_mono hle
  rwa [Decimal.toBinary64_ofBinary64, Decimal.toBinary64_ofBinary64] at hback

namespace Decimal

theorem eq_finite_of_ofBinary64 {x : Binary64} {a : Bool} {c : ℕ} {e : ℤ}
    (h : ofBinary64 x = .finite a c e) : ∃ m, x = .finite a m := by
  rcases x with _ | _ | ⟨b, m⟩
  · cases h
  · cases h
  · obtain ⟨_, _, hb, -⟩ := ofBinary64_finite b m
    obtain ⟨rfl, -⟩ := finite.inj (hb.symm.trans h)
    exact ⟨m, rfl⟩

theorem toBinary64_finite (a : Bool) {c n : ℕ} (hc : c < 10 ^ 28) :
    ∃ m, toBinary64 (.finite a c (-n)) = .finite a m ∧
      FloatFormat.units.Rounds (c / 10 ^ n * Binary64.unit) m.units := by
  have hnear := Binary64.nearest_ofDecimal a c (-n)
  rw [zpow_neg, zpow_natCast, ← div_eq_mul_inv] at hnear
  exact hnear.exists_magnitude
    ((div_le_self c.cast_nonneg (one_le_pow₀ (by norm_num))).trans (by exact_mod_cast hc.le))

end Decimal

namespace Rounder

variable {bearing : Bearing} {n : ℕ} {a : Bool} {m : Magnitude}

theorem round_of_toPlaces {x : Binary64} {d : Decimal}
    (h : Decimal.toPlaces bearing n (Decimal.ofBinary64 x) = .ok d) :
    (toPlaces bearing n).round x = .ok d.toBinary64 := by
  rw [round, h]
  rfl

theorem round_shortest (bearing : Bearing) (n : ℕ) (a : Bool) (hm : m.units ≠ 0) :
    ∃ w, (bearing.direction a).Rounds (m.shortest.1 * 10 ^ (m.shortest.2 + n)) w ∧
      (toPlaces bearing n).round (.finite a m) =
        if w < 10 ^ 28 then .ok (Decimal.finite a w (-n)).toBinary64
        else .error (.arithmetic .invalidOperation) := by
  obtain ⟨w, hw, ho⟩ := Decimal.toPlaces_finite bearing n a m.shortest.1 m.shortest.2
  refine ⟨w, hw, ?_⟩
  rw [round, Magnitude.decimal_shortest a hm, ho]
  split <;> rfl

theorem round_infinite (a : Bool) :
    (toPlaces bearing n).round (.infinite a) = .error (.arithmetic .invalidOperation) := rfl

theorem round_finite (bearing : Bearing) (n : ℕ) (a : Bool) {v : ℚ}
    (hv : (Decimal.ofBinary64 (.finite a m)).value = v) (hne : v ≠ 0) :
    (|v| * 10 ^ n < 10 ^ 28 → ∃ y, (toPlaces bearing n).round (.finite a m) = .ok (.finite a y) ∧
      (Binary64.finite a y).IsNearest (bearing.whole (v * 10 ^ n) / 10 ^ n)) ∧
    (10 ^ 28 ≤ |v| * 10 ^ n →
      (toPlaces bearing n).round (.finite a m) = .error (.arithmetic .invalidOperation)) := by
  have hm : m.units ≠ 0 := fun h => hne (hv ▸ Magnitude.value_eq_zero_iff.mpr h)
  rw [Magnitude.decimal_shortest a hm, Decimal.value] at hv
  subst hv
  obtain ⟨w, hw, hround⟩ := round_shortest bearing n a hm
  -- the printed digits are few, so that only the places left of them can make too many
  have hdigits := hw.lt_iff_of_few (Magnitude.shortest_lt hm)
  have hscaled : (0 : ℚ) ≤ m.shortest.1 * 10 ^ (m.shortest.2 + n) := Decimal.scaled_nonneg _ _
  rw [abs_signed (Decimal.scaled_nonneg _ _), signed_mul]
  rw [ten_zpow_add, ← mul_assoc, zpow_natCast] at hw hdigits hscaled
  rw [hround]
  constructor
  · intro hlt
    have hfew := hdigits.mpr hlt
    obtain ⟨y, hy, hnear⟩ := Decimal.toBinary64_finite a (n := n) hfew
    refine ⟨y, by rw [if_pos hfew, hy], a, w / 10 ^ n, by positivity, ?_, .within y hnear⟩
    rw [Bearing.whole_signed hscaled hw]
    cases a <;> simp [signed, neg_div]
  · intro hle
    rw [if_neg fun hfew => not_lt.mpr hle (hdigits.mp hfew)]

end Rounder

/-- A rounder does what its type says to the printed digits of a number: it leads to the double next
to the whole multiple of its last place above, below or nearest to it, and it has no result just if
the number has more than 28 digits down to this place, or no end. -/
theorem rounder_exact (bearing : Bearing) (n : ℕ) :
    (mostDecimals < n → rounderOf (.text bearing.type.name) (.int n) =
      .error (.arithmetic .invalidOperation)) ∧
    (n ≤ mostDecimals → ∃ r, rounderOf (.text bearing.type.name) (.int n) = .ok r ∧
      r.round .nan = .ok .nan ∧
      (∀ a, r.round (.infinite a) = .error (.arithmetic .invalidOperation)) ∧
      ∀ a m v, (Decimal.ofBinary64 (.finite a m)).value = v →
        (v = 0 → r.round (.finite a m) = .ok (.zero a)) ∧
        (v ≠ 0 → |v| * 10 ^ n < 10 ^ 28 → ∃ y, r.round (.finite a m) = .ok (.finite a y) ∧
          (Binary64.finite a y).IsNearest (bearing.whole (v * 10 ^ n) / 10 ^ n)) ∧
        (v ≠ 0 → 10 ^ 28 ≤ |v| * 10 ^ n →
          r.round (.finite a m) = .error (.arithmetic .invalidOperation))) := by
  rw [bearing.rounderOf_type]
  refine ⟨fun h => Bearing.rounder_eq_error.mpr ⟨h, rfl⟩,
    fun h => ⟨.toPlaces bearing n, Bearing.rounder_eq_ok.mpr ⟨h, rfl⟩, rfl,
    fun a => Rounder.round_infinite a, fun a m v hv => ⟨fun hzero => ?_, fun hne => ?_,
      fun hne => ?_⟩⟩⟩
  · have hm : m = .zero := Magnitude.ext (Magnitude.value_eq_zero_iff.mp (hv.trans hzero))
    rw [hm]
    exact Rounder.round_zero _ a
  · exact (Rounder.round_finite bearing n a hv hne).1
  · exact (Rounder.round_finite bearing n a hv hne).2

/-- A negative tie goes away from zero, and ten has 28 digits too many for 27 decimals. -/
theorem rounder_exact_tie_and_digits :
    (∃ r y, rounderOf (.text "normal") (.int 2) = .ok r ∧
      r.round (.ofDecimal true 2675 (-3)) = .ok (.finite true y) ∧
      (Binary64.finite true y).IsNearest (-268 / 100)) ∧
    (∃ r, rounderOf (.text "normal") (.int 27) = .ok r ∧
      r.round (.ofDecimal false 10 0) = .error (.arithmetic .invalidOperation)) ∧
    rounderOf (.text "normal") (.int 2000055) = .error (.arithmetic .invalidOperation) := by
  refine ⟨?_, ?_, (rounder_exact .nearest 2000055).1 (by decide)⟩
  · obtain ⟨r, hr, -, -, hround⟩ := (rounder_exact .nearest 2).2 (by decide)
    have hdec : Decimal.ofBinary64 (.ofDecimal true 2675 (-3)) = .finite true 2675 (-3) := by
      decide +kernel
    obtain ⟨m, hm⟩ := Decimal.eq_finite_of_ofBinary64 hdec
    have hvalue : (Decimal.ofBinary64 (.finite true m)).value = -2675 / 1000 := by
      rw [← hm, hdec]
      norm_num [Decimal.value, signed]
    have hwhole : Bearing.nearest.whole (-2675 / 1000 * 10 ^ 2) = -268 := by
      norm_num [Bearing.whole]
    obtain ⟨y, hy, hnear⟩ := (hround true m _ hvalue).2.1 (by norm_num) (by norm_num)
    rw [hwhole] at hnear
    exact ⟨r, y, hr, hm ▸ hy, by exact_mod_cast hnear⟩
  · obtain ⟨r, hr, -, -, hround⟩ := (rounder_exact .nearest 27).2 (by decide)
    have hdec : Decimal.ofBinary64 (.ofDecimal false 10 0) = .finite false 1 1 := by
      decide +kernel
    obtain ⟨m, hm⟩ := Decimal.eq_finite_of_ofBinary64 hdec
    have hvalue : (Decimal.ofBinary64 (.finite false m)).value = 10 := by
      rw [← hm, hdec]
      norm_num [Decimal.value, signed]
    exact ⟨r, hr, hm ▸ (hround false m _ hvalue).2.2 (by norm_num) (by norm_num)⟩

end ExamAdmission
