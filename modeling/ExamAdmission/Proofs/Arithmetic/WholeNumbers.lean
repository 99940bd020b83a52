import ExamAdmission.Proofs.Arithmetic.FewestDigits
import ExamAdmission.Proofs.Document.Sums

/-! Whole numbers as doubles. Below 2^53 each of them is a double, and the shortest decimal of that
double is the number itself. -/

namespace ExamAdmission

attribute [local irreducible] rangeEnd Binary64.unit

theorem rounds_whole {k : ℕ} (h : k ≤ 2 ^ 53) :
    FloatFormat.units.Rounds (k * Binary64.unit) (k * Binary64.unit) := by
  obtain ⟨m, hm⟩ := Magnitude.exists_of_le h isStep_unit
  have hr := Binary64.rounds_units m
  rwa [hm, Nat.cast_mul] at hr

theorem eq_of_rounds_whole {j n : ℕ} (hn : n < 2 ^ 53)
    (h : FloatFormat.units.Rounds (j * Binary64.unit) (n * Binary64.unit)) : j = n := by
  have hunit := Binary64.unit_pos
  by_cases hj : j ≤ 2 ^ 53
  · have heq := (rounds_whole hj).unique h
    exact_mod_cast mul_right_cancel₀ hunit.ne' heq
  · have hle : ((2 ^ 53 : ℕ) : ℚ) * Binary64.unit ≤ j * Binary64.unit :=
      mul_le_mul_of_nonneg_right (by exact_mod_cast Nat.le_of_not_le hj) hunit.le
    have hmono := (rounds_whole le_rfl).mono h hle
    have hbound : ((2 ^ 53 : ℕ) : ℚ) ≤ n := le_of_mul_le_mul_right hmono hunit
    have hnat : 2 ^ 53 ≤ n := by exact_mod_cast hbound
    omega

namespace Magnitude

variable {m : Magnitude} {n : ℕ}

theorem value_of_readsBack {c : ℕ} {e : ℤ} (hm : m.units = n * Binary64.unit) (hn : n < 2 ^ 53)
    (he : 0 ≤ e) (h : m.readsBack c e = true) : (c : ℚ) * 10 ^ e = n := by
  obtain ⟨k, rfl⟩ := Int.eq_ofNat_of_zero_le he
  have hr := rounds_of_readsBack h
  have hcast : (c : ℚ) * 10 ^ (k : ℤ) = (c * 10 ^ k : ℕ) := by
    rw [zpow_natCast]
    push_cast
    rfl
  rw [hcast, hm, Nat.cast_mul n] at hr
  rw [hcast, eq_of_rounds_whole hn hr]

/-- A whole number stands on the grid of ones or on a coarser one. -/
theorem value_shortest (hm : m.units = n * Binary64.unit) (hn : n < 2 ^ 53) (hpos : m.units ≠ 0) :
    (m.shortest.1 : ℚ) * 10 ^ m.shortest.2 = n := by
  have hback : m.readsBack n 0 = true :=
    m.readsBack_of_value (by rw [zpow_zero, mul_one, hm, Nat.cast_mul])
  exact value_of_readsBack hm hn (le_shortest hpos hback) m.readsBack_shortest

end Magnitude

/-- A double whose decimal is a whole number. -/
def Binary64.IsWhole (x : Binary64) (n : ℕ) : Prop :=
  ∃ c e, Decimal.ofBinary64 x = .finite false c e ∧ (c : ℚ) * 10 ^ e = n

namespace Binary64

variable {x : Binary64} {m : Magnitude} {n : ℕ}

theorem isWhole_of_units (hm : m.units = n * unit) (hn : n < 2 ^ 53) :
    (finite false m).IsWhole n := by
  by_cases hz : m.units = 0
  · have hn0 : n = 0 := by
      have hunit : unit ≠ 0 := by exact_mod_cast unit_pos.ne'
      exact (Nat.mul_eq_zero.mp (hm.symm.trans hz)).resolve_right hunit
    exact ⟨0, 0, by simp [Decimal.ofBinary64, hz], by simp [hn0]⟩
  · exact ⟨m.shortest.1, m.shortest.2, by simp [Decimal.ofBinary64, hz],
      Magnitude.value_shortest hm hn hz⟩

theorem IsWhole.le_decimal (h : x.IsWhole n) : Decimal.ofBinary64 x ≤ .finite false n 0 := by
  obtain ⟨c, e, hx, hvalue⟩ := h
  rw [hx, Decimal.finite_le_finite, hvalue, zpow_zero, mul_one]

theorem IsWhole.decimal_le (h : x.IsWhole n) : .finite false n 0 ≤ Decimal.ofBinary64 x := by
  obtain ⟨c, e, hx, hvalue⟩ := h
  rw [hx, Decimal.finite_le_finite, hvalue, zpow_zero, mul_one]

end Binary64

end ExamAdmission
