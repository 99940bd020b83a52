import ExamAdmission.Proofs.Arithmetic.FifteenDigits
import ExamAdmission.Proofs.Arithmetic.WholeGaps
import ExamAdmission.Proofs.Rounding.EqualPoints
import ExamAdmission.Proofs.Rounding.LastPlace
import ExamAdmission.Proofs.Rounding.PercentRange

/-! Percents of whole points. Rounding changes at the halves of whole numbers. The exact percent is on
one of them, and then it has 15 digits and is not changed on its way, or it is farther away from them
than all errors of this way together. -/

namespace ExamAdmission

attribute [local irreducible] rangeEnd Binary64.unit

namespace Direction.Rounds

variable {d : Direction} {q q' : ℚ} {m : ℕ}

/-- Between two neighbouring halves all numbers are rounded alike. -/
theorem of_between_halves {j : ℕ} (h : d.Rounds q m) (hlow : (j : ℚ) < 2 * q)
    (hhigh : 2 * q < j + 1) (hlow' : (j : ℚ) < 2 * q') (hhigh' : 2 * q' < j + 1) :
    d.Rounds q' m := by
  have hbelow : ∀ i : ℤ, (i : ℚ) ≤ 2 * q → (i : ℚ) < 2 * q' := by
    intro i hi
    have hij : i < j + 1 := by exact_mod_cast hi.trans_lt hhigh
    exact lt_of_le_of_lt (by exact_mod_cast Int.lt_add_one_iff.mp hij) hlow'
  have habove : ∀ i : ℤ, 2 * q ≤ (i : ℚ) → 2 * q' < (i : ℚ) := by
    intro i hi
    have hij : (j : ℤ) < i := by exact_mod_cast hlow.trans_le hi
    exact lt_of_lt_of_le hhigh' (by exact_mod_cast hij)
  -- the bounds of every direction are halves
  cases d with
  | down =>
    have hstart := hbelow (2 * m) (by push_cast; linarith [h.1])
    have hend := habove (2 * m + 2) (by push_cast; linarith [h.2])
    push_cast at hstart hend
    constructor <;> linarith
  | up =>
    have hstart := hbelow (2 * m - 2) (by push_cast; linarith [h.1])
    have hend := habove (2 * m) (by push_cast; linarith [h.2])
    push_cast at hstart hend
    constructor <;> linarith
  | halfUp =>
    have hstart := hbelow (2 * m - 1) (by push_cast; linarith [h.1])
    have hend := habove (2 * m + 1) (by push_cast; linarith [h.2])
    push_cast at hstart hend
    constructor <;> linarith
  | halfEven =>
    have hstart := hbelow (2 * m - 1) (by push_cast; linarith [h.1])
    have hend := habove (2 * m + 1) (by push_cast; linarith [h.2.1])
    push_cast at hstart hend
    refine ⟨by linarith, by linarith, ?_⟩
    rintro (htie | htie) <;> linarith

/-- A ratio that is on no half is away from all of them by its denominator, which is more than the
fifteenth digit makes. -/
theorem of_ratio {N r : ℕ} (h : d.Rounds q m) (hr : 0 < r) (hN : N ≤ 10 ^ 14)
    (hnear : |q - N / r| ≤ N / r / 10 ^ 15) (hexact : ∀ j : ℕ, 2 * (N / r : ℚ) = j → q = N / r) :
    d.Rounds (N / r) m := by
  have hr' : (0 : ℚ) < r := by exact_mod_cast hr
  have hsplit : 2 * (N / r : ℚ) = (2 * N / r : ℕ) + (2 * N % r : ℕ) / r := by
    have hnat : (2 : ℚ) * N = r * (2 * N / r : ℕ) + (2 * N % r : ℕ) := by
      exact_mod_cast (Nat.div_add_mod (2 * N) r).symm
    field_simp
    linarith
  rcases Nat.eq_zero_or_pos (2 * N % r) with hzero | hpos
  · rw [hzero, Nat.cast_zero, zero_div, add_zero] at hsplit
    rwa [← hexact _ hsplit]
  · -- off the halves the rest is 1 at least, and less than the denominator
    have hrest : (1 : ℚ) / r ≤ (2 * N % r : ℕ) / r :=
      (div_le_div_iff_of_pos_right hr').mpr (by exact_mod_cast hpos)
    have hrest' : ((2 * N % r : ℕ) : ℚ) / r + 1 / r ≤ 1 := by
      rw [← add_div, div_le_one hr']
      exact_mod_cast Nat.mod_lt (2 * N) hr
    have herr : (N : ℚ) / r / 10 ^ 15 ≤ 1 / r / 10 := by
      have hsize : (N : ℚ) / 10 ^ 14 ≤ 1 := by
        rw [div_le_one (by norm_num)]
        exact_mod_cast hN
      have hscale := (div_le_div_iff_of_pos_right hr').mpr hsize
      rw [div_right_comm] at hscale
      linarith
    have hone : (0 : ℚ) < 1 / r := one_div_pos.mpr hr'
    obtain ⟨hbelow, habove⟩ := abs_le.mp hnear
    exact h.of_between_halves (j := 2 * N / r) (by linarith) (by linarith) (by linarith)
      (by linarith)

end Direction.Rounds

namespace Decimal

variable {m n : Magnitude} {k : ℕ}

theorem decimalUnits_of_whole (hn : 0 < n.units) (hwhole : n.units = k * Binary64.unit)
    (hk : k < 2 ^ 53) : n.decimalUnits = k * Binary64.unit := by
  rw [Magnitude.decimalUnits, Magnitude.value_shortest hwhole hk hn.ne']

theorem exists_percent_of_whole (hm : m.units = k * Binary64.unit) (hk : k < 2 ^ 53)
    (hn : 0 < n.units) :
    ∃ d c e, (ofBinary64 (.finite false m)).mul (ofInt 100) = .ok d ∧
      d.div (ofBinary64 (.finite false n)) = .ok (finite false c e) ∧
      FloatFormat.decimals.Rounds (k * 100 * Binary64.unit / n.decimalUnits) (c * 10 ^ e) := by
  obtain ⟨d, c, e, D, E, hmul, hdiv, hdec, hdec', -, hround⟩ := exists_percent false false m hn
  have hunit := Binary64.unit_pos.ne'
  have hD : (D.1 * 10 ^ D.2 : ℚ) = k := by
    obtain ⟨c', e', hwhole, hvalue⟩ := Binary64.isWhole_of_units hm hk
    obtain ⟨-, hc, he⟩ := finite.inj (hdec.symm.trans hwhole)
    rw [hc, he, hvalue]
  have hE : (E.1 * 10 ^ E.2 * Binary64.unit : ℚ) = n.decimalUnits := by
    obtain ⟨-, hc, he⟩ := finite.inj (hdec'.symm.trans (n.decimal_shortest false hn.ne'))
    rw [hc, he, Magnitude.decimalUnits]
  rw [hD] at hround
  rw [← hE, mul_div_mul_right _ _ hunit]
  exact ⟨d, c, e, hmul, hdiv, hround⟩

end Decimal

/-- A value that is a whole number, of either kind. -/
def Value.IsCount (v : Value) (n : ℕ) : Prop :=
  ∃ a, v.number? = some a ∧ a.position? = (Number.int n).position?

namespace Value.IsCount

variable {v w : Value} {a r : ℕ}

theorem toBinary64_orZero (h : v.IsCount a) (ha : a < 2 ^ 53) :
    ∃ m, v.orZero.toBinary64 = .ok (.finite false m) ∧ m.units = a * Binary64.unit := by
  obtain ⟨x, hx, hplace⟩ := h
  obtain ⟨m, hm⟩ := Magnitude.exists_of_le ha.le isStep_unit
  have hcount : (Number.int a).toBinary64 = .ok (.finite _ m) :=
    Number.toBinary64_int.mpr (Binary64.ofInt?_of_units hm)
  rw [Value.toBinary64_orZero_congr hx (w := .int a) rfl hplace]
  exact ⟨m, Value.toBinary64_orZero rfl (Number.int_le_int.mpr (Int.natCast_nonneg a)) hcount, hm⟩

theorem isZero_eq_false {x : Number} (h : v.IsCount r) (hr : 0 < r) (hx : v.number? = some x) :
    x.isZero = false := by
  obtain ⟨y, hy, hplace⟩ := h
  cases hx.symm.trans hy
  rw [Number.isZero, hplace, ← Number.isZero, Number.isZero_int]
  exact decide_eq_false (by exact_mod_cast hr.ne')

theorem percentOf_eq (hv : v.IsCount a) (hw : w.IsCount r) (ha : a < 2 ^ 53) (hr : 0 < r)
    (hr' : r < 2 ^ 53) : ∃ c e, percentOf v w = .ok (Binary64.ofDecimal false c e) ∧
      FloatFormat.decimals.Rounds (100 * a / r) (c * 10 ^ e) := by
  obtain ⟨m, hm, hunits⟩ := hv.toBinary64_orZero ha
  obtain ⟨n, hn, hunits'⟩ := hw.toBinary64_orZero hr'
  have ⟨y, hy, _⟩ := hw
  have hzero := hw.isZero_eq_false hr hy
  have hpos : 0 < n.units := by
    rw [hunits']
    exact Nat.mul_pos hr (by exact_mod_cast Binary64.unit_pos)
  have hreference : y.toBinary64 = .ok (.finite false n) := by
    rw [orZero, holds_of_number? hy, hzero] at hn
    exact (toBinary64_of_number? hy).symm.trans hn
  obtain ⟨d, c, e, hmul, hdiv, hround⟩ := Decimal.exists_percent_of_whole hunits ha hpos
  refine ⟨c, e, (percentOf_eq_ok hy).mpr ⟨hzero, _, _, d, _, hm, hmul, hreference, hdiv, rfl⟩, ?_⟩
  rwa [Decimal.decimalUnits_of_whole hpos hunits' hr', mul_div_mul_right _ _ Binary64.unit_pos.ne',
    mul_comm] at hround

/-- The digits that the percent is printed with, against the exact one. -/
theorem exists_printed (hv : v.IsCount a) (hw : w.IsCount r) (ha : 0 < a) (ha' : a ≤ 10 ^ 12)
    (hr : 0 < r) (hr' : r ≤ 10 ^ 15) :
    ∃ m : Magnitude, percentOf v w = .ok (.finite false m) ∧ m.units ≠ 0 ∧
      |(m.shortest.1 : ℚ) * 10 ^ m.shortest.2 - 100 * a / r| ≤ 100 * a / r / 10 ^ 15 ∧
      (FifteenDigits (100 * a / r) → (m.shortest.1 : ℚ) * 10 ^ m.shortest.2 = 100 * a / r) := by
  obtain ⟨c, e, hp, hround⟩ := hv.percentOf_eq hw (by omega) hr (by omega)
  have hrpos : (0 : ℚ) < r := by exact_mod_cast hr
  have hlower : (1 : ℚ) / 10 ^ 13 ≤ 100 * a / r := by
    have ha'' : (1 : ℚ) ≤ a := by exact_mod_cast ha
    have hr'' : (r : ℚ) ≤ 10 ^ 15 := by exact_mod_cast hr'
    rw [div_le_div_iff₀ (by norm_num) hrpos]
    linarith
  have hupper : (100 : ℚ) * a / r ≤ 10 ^ 14 := by
    have ha'' : (a : ℚ) ≤ 10 ^ 12 := by exact_mod_cast ha'
    have hr'' : (1 : ℚ) ≤ r := by exact_mod_cast hr
    rw [div_le_iff₀ hrpos]
    linarith
  have herr := abs_le.mp (FloatFormat.decimals_abs_sub_le hround)
  obtain ⟨m, hm, hunits⟩ := (Binary64.nearest_ofDecimal false c e).exists_magnitude
    (by linarith [herr.1])
  have hsize : (10 : ℚ) ^ (-250 : ℤ) ≤ c * 10 ^ e := by
    refine (ten_zpow_le (by norm_num : (-250 : ℤ) ≤ -14)).trans ?_
    norm_num
    linarith [herr.2]
  have hlarge := Magnitude.le_units_of_rounds hsize hunits
  refine ⟨m, hm ▸ hp, by omega, ?_, fun hdigits => ?_⟩
  · have hnear := Magnitude.abs_shortest_sub_le hlarge (Magnitude.readsBack_iff.mpr hunits)
    rw [abs_le] at hnear ⊢
    constructor <;> linarith [herr.1, herr.2, hnear.1, hnear.2]
  · rw [hdigits.rounds_eq hround] at hunits
    obtain ⟨b, z, hb, hvalue⟩ := hdigits
    rw [hvalue] at hunits ⊢
    exact Magnitude.value_shortest_of_fifteen hb hlarge (Magnitude.readsBack_iff.mpr hunits)

theorem exists_round_percent (bearing : Bearing) {n : ℕ} (hv : v.IsCount a) (hw : w.IsCount r)
    (ha : 0 < a) (hr : 0 < r) (hr' : r ≤ 10 ^ 15) (hn : a * 10 ^ n ≤ 10 ^ 12) :
    ∃ p y k, percentOf v w = .ok p ∧ (Rounder.toPlaces bearing n).round p = .ok (.finite false y) ∧
      (bearing.direction false).Rounds (100 * a / r * 10 ^ n) k ∧ k ≤ 10 ^ 14 ∧
      FloatFormat.units.Rounds (k / 10 ^ n * Binary64.unit) y.units := by
  obtain ⟨m, hp, hm, hnear, hexact⟩ := hv.exists_printed hw ha
    ((Nat.le_mul_of_pos_right a (Nat.pow_pos (by decide))).trans hn) hr hr'
  obtain ⟨k, hk, hround⟩ := Rounder.round_shortest bearing n false hm
  have hscale : (100 * a / r * 10 ^ n : ℚ) = (100 * (a * 10 ^ n) : ℕ) / r := by
    push_cast
    ring
  have hone : (1 : ℚ) ≤ r := by exact_mod_cast hr
  have hsize : ((100 * (a * 10 ^ n) : ℕ) : ℚ) / r ≤ (100 * (a * 10 ^ n) : ℕ) :=
    div_le_self (Nat.cast_nonneg _) hone
  rw [ten_zpow_add, ← mul_assoc, zpow_natCast] at hk
  have herr : |(m.shortest.1 : ℚ) * 10 ^ m.shortest.2 * 10 ^ n - (100 * (a * 10 ^ n) : ℕ) / r| ≤
      (100 * (a * 10 ^ n) : ℕ) / r / 10 ^ 15 := by
    have hpow : (0 : ℚ) < 10 ^ n := by positivity
    have hmul := mul_le_mul_of_nonneg_right hnear hpow.le
    rwa [← abs_of_pos hpow, ← abs_mul, abs_of_pos hpow, sub_mul,
      div_mul_eq_mul_div (100 * a / r : ℚ) (10 ^ 15), hscale] at hmul
  -- on a half the percent has 15 digits, and these are printed
  have hwhole := hk.of_ratio hr (by omega) herr fun j hj => by
    have hj' : (j : ℚ) ≤ (2 * (100 * (a * 10 ^ n)) : ℕ) := by
      rw [← hj, Nat.cast_mul 2, Nat.cast_ofNat]
      exact mul_le_mul_of_nonneg_left hsize (by norm_num)
    have hdigits : j ≤ 2 * (100 * (a * 10 ^ n)) := by exact_mod_cast hj'
    rw [hexact (.of_half (hscale ▸ hj) (by omega)), hscale]
  have hfew : k ≤ 100 * (a * 10 ^ n) := hwhole.le_natCast hsize
  obtain ⟨y, hy, hunits⟩ := Decimal.toBinary64_finite false (n := n) (show k < 10 ^ 28 by omega)
  rw [if_pos (by omega), hy] at hround
  exact ⟨_, y, k, hp, hround, hscale ▸ hwhole, by omega, hunits⟩

end Value.IsCount

end ExamAdmission
