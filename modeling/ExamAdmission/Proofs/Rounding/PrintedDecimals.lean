import ExamAdmission.Proofs.Rounding.FullPoints
import ExamAdmission.Proofs.Rounding.LastPlace

/-! Percents by way of printed decimals. The hundredfold of a double has no more digits than are
printed, so that a percent is rounded once to 28 digits before it becomes a double. What is exact in
28 digits is not changed on this way. -/

namespace ExamAdmission

attribute [local irreducible] rangeEnd Binary64.unit

theorem Binary64.lt_iff_value {x y : Binary64} (hx : x.IsFinite) (hy : y.IsFinite) :
    Number.float x < .float y ↔
      (Decimal.ofBinary64 x).value < (Decimal.ofBinary64 y).value := by
  rw [lt_iff_le_not_ge, ← le_iff_value hx hy, ← le_iff_value hy hx]
  exact Iff.rfl

theorem Binary64.value_ne_zero {x : Binary64} (hx : x.IsFinite)
    (hz : (Number.float x).isZero = false) : (Decimal.ofBinary64 x).value ≠ 0 := by
  obtain ⟨a, m, rfl⟩ := hx
  rw [Number.isZero_finite] at hz
  exact fun hzero => of_decide_eq_false hz (Magnitude.value_eq_zero_iff.mp hzero)

theorem Number.isZero_of_pos {a : Number} (h : int 0 < a) : a.isZero = false :=
  Bool.eq_false_iff.mpr fun hz =>
    not_lt_of_position_eq (position?_zero.trans (isZero_iff.mp hz).symm) h

/-- Points that are zero lose their sign before they are made a decimal. -/
theorem Value.toBinary64_orZero_finite (a : Bool) (m : Magnitude) :
    ∃ s, (Value.float (.finite a m)).orZero.toBinary64 = .ok (.finite s m) ∧
      (Decimal.ofBinary64 (.finite s m)).value = (Decimal.ofBinary64 (.finite a m)).value := by
  by_cases hm : m.units = 0
  · obtain rfl : m = .zero := Magnitude.ext hm
    refine ⟨false, Number.toBinary64_zero, ?_⟩
    rw [Magnitude.value_eq_zero_iff.mpr hm, Magnitude.value_eq_zero_iff.mpr hm]
  · refine ⟨a, ?_, rfl⟩
    rw [orZero, if_pos (by simpa [holds] using hm)]
    rfl

section Percent

variable {x r : Binary64} {v w : ℚ}

/-- The percent of two doubles is that of their printed values, rounded once to 28 digits. -/
theorem exists_percentOf_finite (hx : x.IsFinite) (hr : r.IsFinite)
    (hv : (Decimal.ofBinary64 x).value = v) (hw : (Decimal.ofBinary64 r).value = w) (hne : w ≠ 0) :
    ∃ t q k, percentOf (.float x) (.float r) = .ok (Decimal.finite t q k).toBinary64 ∧
      signed t |v * 100 / w| = v * 100 / w ∧
      FloatFormat.decimals.Rounds |v * 100 / w| (q * 10 ^ k) := by
  obtain ⟨a, m, rfl⟩ := hx
  obtain ⟨b, n, rfl⟩ := hr
  obtain ⟨s, hs, hsame⟩ := Value.toBinary64_orZero_finite a m
  have hn : n.units ≠ 0 := fun hzero => hne (hw ▸ Magnitude.value_eq_zero_iff.mpr hzero)
  have hzero : (Number.float (.finite b n)).isZero = false := by
    rw [Number.isZero_finite, decide_eq_false hn]
  obtain ⟨d, q, k, D, E, hmul, hdiv, hdec, hdec', -, hround⟩ :=
    Decimal.exists_percent s b m (Nat.pos_of_ne_zero hn)
  have hexact : v * 100 / w = signed (s != b) (D.1 * 10 ^ D.2 * 100 / (E.1 * 10 ^ E.2)) := by
    rw [← hv, ← hsame, ← hw, hdec, hdec', Decimal.value, Decimal.value, signed_mul, signed_div]
  have hnonneg : (0 : ℚ) ≤ D.1 * 10 ^ D.2 * 100 / (E.1 * 10 ^ E.2) :=
    div_nonneg (mul_nonneg (Decimal.scaled_nonneg _ _) (by norm_num)) (Decimal.scaled_nonneg _ _)
  rw [hexact, abs_signed hnonneg]
  exact ⟨_, q, k, (percentOf_eq_ok rfl).mpr ⟨hzero, _, _, d, _, hs, hmul, rfl, hdiv, rfl⟩, rfl,
    hround⟩

theorem shareOfCount_one (hx : x.IsFinite) : shareOfCount 1 x = .ok x := by
  obtain ⟨a, m, rfl⟩ := hx
  obtain ⟨c, e, hdec, hc⟩ := m.exists_digits
  obtain ⟨c', e', hmul, hround⟩ := (Decimal.scales_mul_count 1).finite a c e
  rw [Nat.cast_one, mul_one] at hround
  have hvalue := hround.eq_of_digits (hc.trans (by norm_num))
  have hshare : (Decimal.ofInt 1).mul (.ofBinary64 (.finite a m)) = .ok (.finite a c' e') := by
    rw [hdec]
    exact hmul
  rw [shareOfCount, hshare]
  exact congrArg Except.ok (Decimal.toBinary64_of_value (hdec a) hvalue)

theorem percentOf_hundred (hx : x.IsFinite) :
    ∃ p, percentOf (.float x) (.float hundred) = .ok p ∧ p.position? = x.position? := by
  have hhundred : (Decimal.ofBinary64 hundred).value = 100 := by
    rw [ofBinary64_hundred]
    norm_num [Decimal.value, signed]
  obtain ⟨t, q, k, hp, hsign, hround⟩ := exists_percentOf_finite hx
    ⟨false, Decimal.eq_finite_of_ofBinary64 ofBinary64_hundred⟩ rfl hhundred (by norm_num)
  rw [mul_div_cancel_right₀ _ (by norm_num)] at hsign hround
  obtain ⟨a, m, rfl⟩ := hx
  obtain ⟨c, e, hdec, hc⟩ := m.exists_digits
  have hnonneg := Decimal.scaled_nonneg c e
  rw [hdec a, Decimal.value, abs_signed hnonneg] at hsign hround
  have hvalue := hround.eq_of_digits (hc.trans (by norm_num))
  refine ⟨_, hp, ?_⟩
  rw [Decimal.toBinary64_of_value (hdec t) hvalue]
  rcases hnonneg.eq_or_lt with hzero | hpos
  · have hm : m.units = 0 := by
      rw [← Magnitude.value_eq_zero_iff (a := a), hdec a, Decimal.value, ← hzero, signed_zero]
    cases t <;> cases a <;> simp [Binary64.position?, Binary64.signedUnits, hm]
  · rw [eq_of_signed_eq hpos hsign]

theorem percentOf_eq_hundred (hx : x.IsFinite) (hz : (Number.float x).isZero = false) :
    percentOf (.float x) (.float x) = .ok hundred := by
  have hne := Binary64.value_ne_zero hx hz
  obtain ⟨t, q, k, hp, hsign, hround⟩ := exists_percentOf_finite hx hx rfl rfl hne
  rw [mul_div_cancel_left₀ _ hne, abs_of_pos (by norm_num)] at hsign hround
  obtain rfl : t = false := eq_of_signed_eq (by norm_num) hsign
  rw [hp, percent_eq_hundred hround]

end Percent

/-- Nothing is lost by printing. A double is read back from its decimal, and the decimals are in the
order of the doubles. So one times a fraction is the fraction, the percent of a hundred is the
number, every number other than zero is a hundred percent of itself, and the percents of a positive
number are in the order of what was achieved. -/
theorem printed_decimals_lossless {x y : Binary64} (hx : x.IsFinite) (hy : y.IsFinite) :
    (∃ c d, (Value.float x).toDecimal = .ok c ∧ (Value.float y).toDecimal = .ok d ∧
      c.toBinary64 = x ∧ (Number.float x < .float y ↔ c.value < d.value)) ∧
    countFromPercent (.int 1) (.float x) = .ok x ∧
    (∃ p, percentOf (.float x) (.float hundred) = .ok p ∧ p.position? = x.position?) ∧
    ((Number.float x).isZero = false → percentOf (.float x) (.float x) = .ok hundred) ∧
    ∀ r : Binary64, r.IsFinite → .int 0 < Number.float r →
      ∃ p q, percentOf (.float x) (.float r) = .ok p ∧ percentOf (.float y) (.float r) = .ok q ∧
        (x ≤ y → p ≤ q) := by
  refine ⟨⟨_, _, rfl, rfl, Decimal.toBinary64_ofBinary64 x, Binary64.lt_iff_value hx hy⟩,
    shareOfCount_one hx, percentOf_hundred hx, percentOf_eq_hundred hx, fun r hr hpos => ?_⟩
  have hne := Binary64.value_ne_zero hr (Number.isZero_of_pos hpos)
  obtain ⟨_, _, _, hp, -⟩ := exists_percentOf_finite hx hr rfl rfl hne
  obtain ⟨_, _, _, hq, -⟩ := exists_percentOf_finite hy hr rfl rfl hne
  exact ⟨_, _, hp, hq, fun hxy => percentOf_mono ⟨_, _, rfl, rfl, hxy⟩ rfl hpos.1 hp hq⟩

/-- The double next below zero. -/
def Sample.nextBelowZero : Binary64 := .ofDecimal true 5 (-324)

def Sample.greatest : Binary64 := .ofDecimal false 17976931348623157 292

/-- Nor at the ends of the range, where the percent of the greatest double may be infinite. -/
theorem printed_decimals_lossless_extremes :
    (∃ c d, (Value.float Sample.nextBelowZero).toDecimal = .ok c ∧
      (Value.float Sample.greatest).toDecimal = .ok d ∧ c.toBinary64 = Sample.nextBelowZero ∧
      c.value < d.value) ∧
    countFromPercent (.int 1) (.float Sample.nextBelowZero) = .ok Sample.nextBelowZero ∧
    percentOf (.float Sample.nextBelowZero) (.float Sample.nextBelowZero) = .ok hundred ∧
    ∃ p q, percentOf (.float Sample.nextBelowZero) (.float (.ofDecimal false 5 (-324))) = .ok p ∧
      percentOf (.float Sample.greatest) (.float (.ofDecimal false 5 (-324))) = .ok q ∧ p ≤ q := by
  have hbelow : Decimal.ofBinary64 Sample.nextBelowZero = .finite true 5 (-324) := by
    decide +kernel
  have hgreatest : Decimal.ofBinary64 Sample.greatest = .finite false 17976931348623157 292 := by
    decide +kernel
  have habove : Decimal.ofBinary64 (.ofDecimal false 5 (-324)) = .finite false 5 (-324) := by
    decide +kernel
  have hzero : (Number.float Sample.nextBelowZero).isZero = false := by decide +kernel
  have hless : Number.float Sample.nextBelowZero < .float Sample.greatest := by
    refine ⟨?_, ?_⟩ <;> rw [Number.le_iff] <;> decide +kernel
  have hpos : .int 0 < Number.float (.ofDecimal false 5 (-324)) := by
    refine ⟨?_, ?_⟩ <;> rw [Number.le_iff] <;> decide +kernel
  obtain ⟨⟨c, d, hc, hd, hback, horder⟩, hone, -, hself, hpercents⟩ :=
    printed_decimals_lossless ⟨true, Decimal.eq_finite_of_ofBinary64 hbelow⟩
      ⟨false, Decimal.eq_finite_of_ofBinary64 hgreatest⟩
  obtain ⟨p, q, hp, hq, hle⟩ :=
    hpercents _ ⟨false, Decimal.eq_finite_of_ofBinary64 habove⟩ hpos
  exact ⟨⟨c, d, hc, hd, hback, horder.mp hless⟩, hone, hself hzero, p, q, hp, hq,
    hle (Number.float_le_float.mp hless.1)⟩

end ExamAdmission
