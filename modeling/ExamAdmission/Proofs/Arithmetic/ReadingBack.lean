import ExamAdmission.Arithmetic.Decimal
import ExamAdmission.Proofs.Arithmetic.Decimals

/-! The shortest decimal of a double reads back to it. Since reading keeps the order, so does
writing. -/

namespace ExamAdmission

attribute [local irreducible] rangeEnd Binary64.unit

namespace Magnitude

variable (m : Magnitude)

theorem value_exact :
    ((m.units * Nat.pow 5 1074 : ℕ) : ℚ) * 10 ^ (-1074 : ℤ) * Binary64.unit = m.units := by
  have h : Nat.pow 5 1074 * Binary64.unit = 10 ^ 1074 := by decide +kernel
  have hq : ((Nat.pow 5 1074 : ℕ) : ℚ) * Binary64.unit = 10 ^ (1074 : ℤ) := by
    rw [← Nat.cast_mul, h, Nat.cast_pow, Nat.cast_ofNat, zpow_ofNat]
  calc ((m.units * Nat.pow 5 1074 : ℕ) : ℚ) * 10 ^ (-1074 : ℤ) * Binary64.unit
    _ = m.units * ((Nat.pow 5 1074 : ℕ) * Binary64.unit * 10 ^ (-1074 : ℤ)) := by
      rw [Nat.cast_mul]
      ring
    _ = m.units := by rw [hq, ← ten_zpow_add]; simp

theorem readsBack_of_value {n : ℕ} {e : ℤ} (h : (n : ℚ) * 10 ^ e * Binary64.unit = m.units) :
    m.readsBack n e = true := by
  have hn := Binary64.nearest_ofDecimal false n e
  rw [h] at hn
  exact decide_eq_true hn.eq_finite

variable {m} in
theorem rounds_of_readsBack {n : ℕ} {e : ℤ} (h : m.readsBack n e = true) :
    FloatFormat.units.Rounds (n * 10 ^ e * Binary64.unit) m.units := by
  have hn := Binary64.nearest_ofDecimal false n e
  rw [of_decide_eq_true h] at hn
  cases hn with
  | within _ hr => exact hr

variable {m} in
theorem pos_of_rounds {n : ℕ} {e : ℤ} (hm : m.units ≠ 0)
    (h : FloatFormat.units.Rounds (n * 10 ^ e * Binary64.unit) m.units) : 0 < n := by
  rw [Nat.pos_iff_ne_zero]
  rintro rfl
  have hzero : (m.units : ℚ) = 0 := h.unique (.inl ⟨by simp, rfl⟩)
  exact hm (by exact_mod_cast hzero)

theorem readsBack_exact : m.readsBack (m.units * Nat.pow 5 1074) (-1074) = true :=
  m.readsBack_of_value m.value_exact

theorem readsBack_onGrid {e : ℤ} {n : ℕ} (h : m.onGrid? e = some n) :
    m.readsBack n e = true := by
  simp only [onGrid?] at h
  split at h
  · rename_i hlow hhigh
    -- both neighbours read back, and a quotient is one of them
    have hle := Direction.quotient_le .halfEven (m.units * Nat.pow 10 (-e).toNat)
      (Binary64.unit * Nat.pow 10 e.toNat)
    have hge := Direction.le_quotient .halfEven (m.units * Nat.pow 10 (-e).toNat)
      (Binary64.unit * Nat.pow 10 e.toNat)
    rw [Option.some.inj h] at hle hge
    rcases Nat.eq_or_lt_of_le hge with heq | hlt
    · rwa [heq] at hlow
    · rwa [Nat.le_antisymm hle hlt]
  · rename_i hlow _
    rwa [← Option.some.inj h]
  · rename_i _ hhigh
    rwa [← Option.some.inj h]
  · cases h

theorem readsBack_search (steps : ℕ) (e : ℤ) :
    m.readsBack (m.search steps e).1 (m.search steps e).2 = true := by
  induction steps generalizing e with
  | zero => exact m.readsBack_exact
  | succ steps ih =>
    cases h : m.onGrid? e with
    | some n => simpa [search, h] using m.readsBack_onGrid h
    | none => simpa [search, h] using ih (e - 1)

theorem readsBack_shortest : m.readsBack m.shortest.1 m.shortest.2 = true :=
  m.readsBack_search 30 m.coarsest

end Magnitude

namespace Decimal

open Binary64 (Nearest)

theorem ofBinary64_finite (a : Bool) (m : Magnitude) :
    ∃ c e, ofBinary64 (.finite a m) = .finite a c e ∧
      FloatFormat.units.Rounds (c * 10 ^ e * Binary64.unit) m.units := by
  by_cases hm : m.units = 0
  · exact ⟨0, 0, by simp [ofBinary64, hm], .inl ⟨by simp, by simp [hm]⟩⟩
  · refine ⟨m.shortest.1, m.shortest.2, by simp [ofBinary64, hm], ?_⟩
    exact Magnitude.rounds_of_readsBack m.readsBack_shortest

theorem rounds_of_ofBinary64 {a b : Bool} {m : Magnitude} {c : ℕ} {e : ℤ}
    (h : ofBinary64 (.finite a m) = .finite b c e) :
    FloatFormat.units.Rounds (c * 10 ^ e * Binary64.unit) m.units := by
  obtain ⟨c', e', h', hround⟩ := ofBinary64_finite a m
  obtain ⟨-, rfl, rfl⟩ := finite.inj (h.symm.trans h')
  exact hround

theorem ofBinary64_eq_nan {x : Binary64} : ofBinary64 x = .nan ↔ x = .nan := by
  rcases x with _ | _ | ⟨a, m⟩
  · simp [ofBinary64]
  · simp [ofBinary64]
  · obtain ⟨c, e, h, _⟩ := ofBinary64_finite a m
    simp [h]

theorem toBinary64_ofBinary64 (x : Binary64) : (ofBinary64 x).toBinary64 = x := by
  rcases x with _ | _ | ⟨a, m⟩
  · rfl
  · rfl
  · obtain ⟨c, e, h, hr⟩ := ofBinary64_finite a m
    rw [h]
    exact (Binary64.nearest_ofDecimal a c e).eq_of_rounds hr

/-- Whatever has the value of the shortest decimal reads back as well. -/
theorem toBinary64_of_value {x : Binary64} {a : Bool} {c c' : ℕ} {e e' : ℤ}
    (h : ofBinary64 x = .finite a c e) (hvalue : (c' : ℚ) * 10 ^ e' = c * 10 ^ e) :
    (Decimal.finite a c' e').toBinary64 = x := by
  have hnear := Binary64.nearest_ofDecimal a c' e'
  rw [hvalue] at hnear
  have hself := toBinary64_ofBinary64 x
  rw [h] at hself
  exact (hnear.unique (Binary64.nearest_ofDecimal a c e)).trans hself

theorem le_total {x y : Decimal} (hx : x ≠ .nan) (hy : y ≠ .nan) : x ≤ y ∨ y ≤ x := by
  rcases x with _ | (_ | _) | ⟨a, m, e⟩ <;> rcases y with _ | (_ | _) | ⟨b, n, f⟩ <;>
    simp_all [Rat.le_total]

theorem ofBinary64_mono {x y : Binary64} (h : x ≤ y) : ofBinary64 x ≤ ofBinary64 y := by
  have hx : ofBinary64 x ≠ .nan := fun hn => by simp [ofBinary64_eq_nan.mp hn] at h
  have hy : ofBinary64 y ≠ .nan := fun hn => by simp [ofBinary64_eq_nan.mp hn] at h
  rcases le_total hx hy with hle | hle
  · exact hle
  -- reading both back gives the other order too, so that they stand at one place
  have hback := toBinary64_mono hle
  rw [toBinary64_ofBinary64, toBinary64_ofBinary64] at hback
  rcases Binary64.eq_or_zero_of_le_of_le h hback with rfl | ⟨a, b, rfl, rfl⟩
  · exact hle
  · cases a <;> cases b <;> simp [ofBinary64, Binary64.zero, Magnitude.zero, signed]

end Decimal

end ExamAdmission
