import ExamAdmission.Proofs.Rounding.LastPlace

/-! Rounding twice. A rounded number is printed without any digit below the last place, since its
shortest digits are on no finer grid than the multiple that it was made from, and what is printed so
stays as it is. -/

namespace ExamAdmission

attribute [local irreducible] rangeEnd Binary64.unit

/-- The decimal that a number is printed with is so many times 10^-places. -/
def Binary64.IsMultiple (x : Binary64) (places k : ℕ) : Prop :=
  ∃ a c e, Decimal.ofBinary64 x = .finite a c e ∧ (c : ℚ) * 10 ^ e = k / 10 ^ places

namespace Rounder

variable {bearing : Bearing} {n k c : ℕ} {e : ℤ} {a : Bool} {m : Magnitude} {x y : Binary64}

theorem scaled_eq_natCast (he : -n ≤ e) :
    (c : ℚ) * 10 ^ (e + n) = (c * 10 ^ (e + n).toNat : ℕ) := by
  obtain ⟨i, hi⟩ := Int.eq_ofNat_of_zero_le (show 0 ≤ e + n by omega)
  rw [hi, Int.toNat_natCast, zpow_natCast, Nat.cast_mul, Nat.cast_pow, Nat.cast_ofNat]

theorem scaled_eq_div (he : -n ≤ e) :
    (c : ℚ) * 10 ^ e = (c * 10 ^ (e + n).toNat : ℕ) / 10 ^ n := by
  rw [← scaled_eq_natCast he, ten_zpow_add, zpow_natCast]
  field_simp

theorem round_of_isMultiple (h : x.IsMultiple n k) (hk : k < 10 ^ 28) :
    (toPlaces bearing n).round x = .ok x := by
  obtain ⟨a, c, e, hdec, hvalue⟩ := h
  obtain ⟨w, hw, ho⟩ := Decimal.toPlaces_finite bearing n a c e
  have hscaled : (c : ℚ) * 10 ^ (e + n) = k := by
    rw [ten_zpow_add, ← mul_assoc, hvalue, zpow_natCast]
    field_simp
  rw [hscaled] at hw
  rw [hw.eq_natCast, if_pos hk, ← hdec] at ho
  rw [round_of_toPlaces ho]
  refine congrArg Except.ok (Decimal.toBinary64_of_value hdec ?_)
  rw [zpow_neg, zpow_natCast, ← div_eq_mul_inv, hvalue]

theorem isMultiple_zero (n : ℕ) (a : Bool) : (Binary64.zero a).IsMultiple n 0 :=
  ⟨a, 0, 0, Decimal.ofBinary64_zero a, by simp⟩

/-- A double that came from so many times 10^-n is printed as a multiple of 10^-n, and not as a much
greater one. -/
theorem isMultiple_of_rounds {w : ℕ} (hm : m.units ≠ 0)
    (h : FloatFormat.units.Rounds (w / 10 ^ n * Binary64.unit) m.units) :
    ∃ k, (Binary64.finite a m).IsMultiple n k ∧ k ≤ 3 * w := by
  have hback : m.readsBack w (-n) = true := by
    rw [Magnitude.readsBack_iff, zpow_neg, zpow_natCast, ← div_eq_mul_inv]
    exact h
  have hgrid := Magnitude.le_shortest hm hback
  refine ⟨_, ⟨a, _, _, Magnitude.decimal_shortest a hm, scaled_eq_div hgrid⟩, ?_⟩
  have hpos : (0 : ℚ) < m.units := by exact_mod_cast Nat.pos_of_ne_zero hm
  have hprinted := (Magnitude.rounds_of_readsBack m.readsBack_shortest).le_and_le hpos
  have hsize : (m.shortest.1 : ℚ) * 10 ^ m.shortest.2 ≤ 3 * (w / 10 ^ n) := by
    refine le_of_mul_le_mul_right ?_ Binary64.unit_pos
    linarith [(h.le_and_le hpos).1, hprinted.2]
  rw [scaled_eq_div hgrid, ← mul_div_assoc, div_le_div_iff_of_pos_right (by positivity)] at hsize
  exact_mod_cast hsize

theorem isMultiple_round (h : (toPlaces bearing n).round (.finite a m) = .ok y) :
    ∃ k, y.IsMultiple n k ∧ ((toPlaces bearing n).round y = .ok y) := by
  by_cases hm : m.units = 0
  · obtain rfl : m = .zero := Magnitude.ext hm
    cases (round_zero (toPlaces bearing n) a).symm.trans h
    exact ⟨0, isMultiple_zero n a, round_zero _ a⟩
  obtain ⟨w, hw, hround⟩ := round_shortest bearing n a hm
  rw [h] at hround
  split at hround
  · rename_i hfew
    obtain ⟨y', hy, hnear⟩ := Decimal.toBinary64_finite a (n := n) hfew
    obtain rfl : y = .finite a y' := (Except.ok.inj hround).trans hy
    by_cases hzero : y'.units = 0
    · obtain rfl : y' = .zero := Magnitude.ext hzero
      exact ⟨0, isMultiple_zero n a, round_zero _ a⟩
    obtain ⟨k, hk, hle⟩ := isMultiple_of_rounds (a := a) hzero hnear
    refine ⟨k, hk, ?_⟩
    rcases Int.le_total (-n) m.shortest.2 with he | he
    · -- nothing is rounded away, so that the number itself came out
      rw [scaled_eq_natCast he] at hw
      have hself := Magnitude.rounds_of_readsBack m.readsBack_shortest
      rw [scaled_eq_div he, ← hw.eq_natCast] at hself
      have hsame : y'.units = m.units := by exact_mod_cast hnear.unique hself
      obtain rfl := Magnitude.ext hsame
      exact h
    · -- the multiple has no more digits than were printed before
      have hdigits : w ≤ m.shortest.1 := hw.le_natCast
        (mul_le_of_le_one_right (Nat.cast_nonneg _)
          (zpow_le_one_of_nonpos₀ (by norm_num) (by omega)))
      have hfirst := Magnitude.shortest_lt hm
      exact round_of_isMultiple hk (by omega)
  · cases hround

end Rounder

/-- The result of rounding is printed as a whole multiple of the last place, and it is not changed
by rounding it again. -/
theorem round_round (bearing : Bearing) {n : ℕ} {r : Rounder} {x y : Binary64}
    (hr : rounderOf (.text bearing.type.name) (.int n) = .ok r) (hx : x.IsFinite)
    (h : r.round x = .ok y) : (∃ k, y.IsMultiple n k) ∧ r.round y = .ok y := by
  obtain ⟨a, m, rfl⟩ := hx
  rw [bearing.rounderOf_type, Bearing.rounder_eq_ok] at hr
  obtain ⟨-, rfl⟩ := hr
  obtain ⟨k, hk, hagain⟩ := Rounder.isMultiple_round h
  exact ⟨⟨k, hk⟩, hagain⟩

/-- Minus 9.995 is carried over to minus ten. -/
theorem round_round_carry :
    ∃ r y, rounderOf (.text "down") (.int 2) = .ok r ∧
      r.round (.ofDecimal true 9995 (-3)) = .ok y ∧ Decimal.ofBinary64 y = .finite true 1 1 ∧
      (∃ k, y.IsMultiple 2 k) ∧ r.round y = .ok y := by
  have hr : rounderOf (.text "down") (.int 2) = .ok (.toPlaces .floor 2) :=
    Bearing.floor.rounderOf_type 2
  have hruns : ((Rounder.toPlaces .floor 2).round (.ofDecimal true 9995 (-3))).toOption.any
      (Decimal.ofBinary64 · = .finite true 1 1) = true := by decide +kernel
  obtain ⟨y, hy, hten⟩ := exists_of_any hruns
  have hdec : Decimal.ofBinary64 (.ofDecimal true 9995 (-3)) = .finite true 9995 (-3) := by
    decide +kernel
  obtain ⟨m, hm⟩ := Decimal.eq_finite_of_ofBinary64 hdec
  obtain ⟨hmultiple, hagain⟩ := round_round .floor hr ⟨true, m, hm⟩ hy
  exact ⟨_, y, hr, hy, of_decide_eq_true hten, hmultiple, hagain⟩

end ExamAdmission
