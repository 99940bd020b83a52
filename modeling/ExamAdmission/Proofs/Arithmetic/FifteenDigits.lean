import ExamAdmission.Proofs.Arithmetic.FewestDigits

/-! Fifteen digits. A decimal of no more digits that is rounded to a double, not one of the least, is
what the shortest digits of this double say. -/

namespace ExamAdmission

attribute [local irreducible] rangeEnd Binary64.unit

namespace Magnitude

variable {m : Magnitude} {b c : ℕ} {e z : ℤ}

theorem abs_sub_le_of_readsBack (hm : 2 ^ 53 ≤ m.units) (h : m.readsBack c e = true) :
    |(c : ℚ) * 10 ^ e * Binary64.unit - m.units| ≤ c * 10 ^ e * Binary64.unit / 2 ^ 53 ∧
      (c : ℚ) * 10 ^ e * Binary64.unit ≤ 3 / 2 * m.units := by
  have hcast : (2 : ℚ) ^ 53 ≤ m.units := by exact_mod_cast hm
  have hround := rounds_of_readsBack h
  obtain ⟨hlow, hhigh⟩ := hround.le_and_le (lt_of_lt_of_le (by norm_num) hcast)
  exact ⟨FloatFormat.units_abs_sub_le_of_le hround (by linarith), hhigh⟩

theorem abs_shortest_sub_le (hm : 2 ^ 53 ≤ m.units) (hback : m.readsBack b z = true) :
    |(m.shortest.1 : ℚ) * 10 ^ m.shortest.2 - b * 10 ^ z| ≤ b * 10 ^ z / 2 ^ 51 := by
  have hunit := Binary64.unit_pos
  have hcast : (2 : ℚ) ^ 53 ≤ m.units := by exact_mod_cast hm
  obtain ⟨herr, hle⟩ := abs_sub_le_of_readsBack hm hback
  obtain ⟨herr', hle'⟩ := abs_sub_le_of_readsBack hm m.readsBack_shortest
  refine le_of_mul_le_mul_right ?_ hunit
  rw [← abs_of_pos hunit, ← abs_mul, abs_of_pos hunit, sub_mul]
  rw [abs_le] at herr herr' ⊢
  constructor <;> linarith

/-- Of 15 digits none is lost in a double that is not too small. -/
theorem value_shortest_of_fifteen (hb : b < 10 ^ 15) (hm : 2 ^ 53 ≤ m.units)
    (hback : m.readsBack b z = true) :
    (m.shortest.1 : ℚ) * 10 ^ m.shortest.2 = b * 10 ^ z := by
  have hgrid := ten_zpow_pos z
  have hdigits : (b : ℚ) * 10 ^ z ≤ 10 ^ 15 * 10 ^ z :=
    mul_le_mul_of_nonneg_right (by exact_mod_cast hb.le) hgrid.le
  have hnear := abs_shortest_sub_le hm hback
  -- both are multiples of 10^z, and nearer to each other than that
  refine scaled_eq_of_abs_sub_lt (le_shortest (by omega) hback) one_pos ?_
  rw [mul_one, mul_one, mul_one]
  linarith

theorem le_units_of_rounds {v : ℚ} (hsize : (10 : ℚ) ^ (-250 : ℤ) ≤ v)
    (h : FloatFormat.units.Rounds (v * Binary64.unit) m.units) : 2 ^ 53 ≤ m.units := by
  have hunit : (2 : ℚ) ^ 54 ≤ 10 ^ (-250 : ℤ) * Binary64.unit := by
    have hcast : (10 : ℚ) ^ 250 * 2 ^ 54 ≤ Binary64.unit := by exact_mod_cast Binary64.le_unit
    rw [zpow_neg, zpow_ofNat, inv_mul_eq_div, le_div_iff₀ (by positivity)]
    linarith
  have hexact : (2 : ℚ) ^ 54 ≤ v * Binary64.unit :=
    hunit.trans (mul_le_mul_of_nonneg_right hsize Binary64.unit_pos.le)
  have herr := abs_le.mp (FloatFormat.units_abs_sub_le_of_le h (by linarith))
  have hlarge : (2 : ℚ) ^ 53 ≤ m.units := by linarith [herr.2]
  exact_mod_cast hlarge

end Magnitude

/-- A number of at most 15 significant digits. -/
def FifteenDigits (v : ℚ) : Prop := ∃ (b : ℕ) (z : ℤ), b < 10 ^ 15 ∧ v = b * 10 ^ z

namespace FifteenDigits

variable {v r : ℚ} {a : Bool} {x : Binary64}

theorem of_le {b : ℕ} (hb : b ≤ 10 ^ 15) (z : ℤ) : FifteenDigits (b * 10 ^ z) := by
  rcases Nat.lt_or_eq_of_le hb with hlt | rfl
  · exact ⟨b, z, hlt, rfl⟩
  · refine ⟨1, 15 + z, by norm_num, ?_⟩
    rw [ten_zpow_add]
    norm_num

theorem of_half {j n : ℕ} (h : 2 * (v * 10 ^ n) = j) (hj : j ≤ 2 * 10 ^ 14) :
    FifteenDigits v := by
  have hvalue : v = (5 * j : ℕ) * 10 ^ (-(n + 1 : ℕ) : ℤ) := by
    rw [zpow_neg, zpow_natCast, ← div_eq_mul_inv, eq_div_iff (by positivity), pow_succ,
      ← mul_assoc]
    push_cast
    linarith
  rw [hvalue]
  exact of_le (by omega) _

theorem rounds_eq (h : FifteenDigits v) (hr : FloatFormat.decimals.Rounds v r) : r = v := by
  obtain ⟨b, z, hb, rfl⟩ := h
  exact hr.eq_of_digits (hb.trans (by norm_num))

theorem div_hundred (h : FifteenDigits v) : FifteenDigits (v / 100) := by
  obtain ⟨b, z, hb, rfl⟩ := h
  refine ⟨b, z - 2, hb, ?_⟩
  rw [zpow_sub₀ (by norm_num)]
  ring

/-- They pass a double unchanged, except for zeros at their end. -/
theorem decimal_of_nearest (h : FifteenDigits v) (hsize : v = 0 ∨ (10 : ℚ) ^ (-250 : ℤ) ≤ v)
    (hx : Binary64.Nearest a (v * Binary64.unit) x) : x = .infinite a ∨
      ∃ c e, Decimal.ofBinary64 x = .finite a c e ∧ (c : ℚ) * 10 ^ e = v := by
  rcases hsize with rfl | hsize
  · rw [zero_mul] at hx
    obtain ⟨m, rfl, hm⟩ := hx.units_of_zero
    exact .inr ⟨0, 0, by rw [Decimal.ofBinary64, if_pos hm], by simp⟩
  · cases hx with
    | beyond u hu hend => exact .inl rfl
    | within m hm =>
      obtain ⟨b, z, hb, rfl⟩ := h
      have hlarge := Magnitude.le_units_of_rounds hsize hm
      exact .inr ⟨_, _, if_neg (by omega),
        Magnitude.value_shortest_of_fifteen hb hlarge (Magnitude.readsBack_iff.mpr hm)⟩

end FifteenDigits

end ExamAdmission
