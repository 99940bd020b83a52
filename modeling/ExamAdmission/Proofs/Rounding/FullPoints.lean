import ExamAdmission.Proofs.Arithmetic.WholeNumbers
import ExamAdmission.Proofs.Rounding.EqualPoints
import ExamAdmission.Proofs.Rounding.PercentRange

/-! Full points. What is on one side of a whole number stays there when it is rounded, so that full
points make 100 percent at least in every rounding. -/

namespace ExamAdmission

attribute [local irreducible] rangeEnd Binary64.unit

namespace Decimal

variable {x y : Decimal} {bearing : Bearing} {places n : ℕ}

theorem toPlaces_value {a : Bool} {c : ℕ} {e : ℤ}
    (h : toPlaces bearing places (.finite a c e) = .ok y) :
    ∃ m : ℕ, (bearing.direction a).Rounds (c * 10 ^ e * (10 ^ places : ℕ)) m ∧
      y = .finite a m (-places) := by
  obtain ⟨m, hm, ho⟩ := toPlaces_finite bearing places a c e
  rw [h] at ho
  split at ho
  · rw [ten_zpow_add, ← mul_assoc, zpow_natCast] at hm
    exact ⟨m, by exact_mod_cast hm, Except.ok.inj ho⟩
  · cases ho

theorem scaled_le_whole (m n places : ℕ) :
    (m : ℚ) * 10 ^ (-(places : ℤ)) ≤ n ↔ m ≤ n * 10 ^ places := by
  rw [zpow_neg, zpow_natCast, ← div_eq_mul_inv, div_le_iff₀ (by positivity)]
  exact_mod_cast Iff.rfl

theorem whole_le_scaled (m n places : ℕ) :
    (n : ℚ) ≤ m * 10 ^ (-(places : ℤ)) ↔ n * 10 ^ places ≤ m := by
  rw [zpow_neg, zpow_natCast, ← div_eq_mul_inv, le_div_iff₀ (by positivity)]
  exact_mod_cast Iff.rfl

theorem toPlaces_le_whole (hx : x ≤ .finite false n 0) (h : toPlaces bearing places x = .ok y) :
    y ≤ .finite false n 0 := by
  rcases x with _ | _ | ⟨a, c, e⟩
  · exact absurd hx not_nan_le
  · cases h
  obtain ⟨m, hm, rfl⟩ := toPlaces_value h
  cases a with
  | true => exact signed_neg_le (scaled_nonneg m _) (scaled_nonneg n 0)
  | false =>
    have hscale : (0 : ℚ) ≤ (10 ^ places : ℕ) := Nat.cast_nonneg _
    have hle : (c : ℚ) * 10 ^ e ≤ n := by simpa [signed] using hx
    have hmul := mul_le_mul_of_nonneg_right hle hscale
    have hnat : m ≤ n * 10 ^ places := hm.le_natCast (by rwa [Nat.cast_mul])
    simpa [signed] using (scaled_le_whole m n places).mpr hnat

theorem whole_le_toPlaces (hx : .finite false n 0 ≤ x) (h : toPlaces bearing places x = .ok y) :
    .finite false n 0 ≤ y := by
  rcases x with _ | _ | ⟨a, c, e⟩
  · exact absurd hx not_le_nan
  · cases h
  obtain ⟨m, hm, rfl⟩ := toPlaces_value h
  rw [finite_le_finite, zpow_zero, mul_one] at hx ⊢
  rcases signed_le_cases n.cast_nonneg (scaled_nonneg c e) hx with
    ⟨-, rfl, hle⟩ | ⟨⟨⟩, -⟩ | ⟨⟨⟩, -⟩ | ⟨hn, hc⟩
  · have hscale : (0 : ℚ) ≤ (10 ^ places : ℕ) := Nat.cast_nonneg _
    have hmul := mul_le_mul_of_nonneg_right hle hscale
    have hnat : n * 10 ^ places ≤ m := hm.natCast_le (by rwa [Nat.cast_mul])
    exact (whole_le_scaled m n places).mpr hnat
  · -- both are zero, of whatever sign
    rw [hc, zero_mul, ← Nat.cast_zero] at hm
    rw [hn, hm.eq_natCast]
    cases a <;> simp [signed]

end Decimal

namespace Rounder

variable {r : Rounder} {x y w : Binary64} {n : ℕ}

theorem round_le_whole (hw : w.IsWhole n) (hx : x ≤ w) (h : r.round x = .ok y) : y ≤ w := by
  cases r with
  | unchanged =>
    cases h
    exact hx
  | toPlaces bearing places =>
    obtain ⟨d, hd, ⟨⟩⟩ := bind_eq_ok.mp h
    have hle := Decimal.toPlaces_le_whole
      (Decimal.le_trans (Decimal.ofBinary64_mono hx) hw.le_decimal) (liftArithmetic_eq_ok.mp hd)
    have hback := Decimal.toBinary64_mono (Decimal.le_trans hle hw.decimal_le)
    rwa [Decimal.toBinary64_ofBinary64] at hback

theorem whole_le_round (hw : w.IsWhole n) (hx : w ≤ x) (h : r.round x = .ok y) : w ≤ y := by
  cases r with
  | unchanged =>
    cases h
    exact hx
  | toPlaces bearing places =>
    obtain ⟨d, hd, ⟨⟩⟩ := bind_eq_ok.mp h
    have hle := Decimal.whole_le_toPlaces
      (Decimal.le_trans hw.decimal_le (Decimal.ofBinary64_mono hx)) (liftArithmetic_eq_ok.mp hd)
    have hback := Decimal.toBinary64_mono (Decimal.le_trans hw.le_decimal hle)
    rwa [Decimal.toBinary64_ofBinary64] at hback

end Rounder

theorem isWhole_hundred : hundred.IsWhole 100 :=
  ⟨1, 2, ofBinary64_hundred, by norm_num⟩

theorem inLimit_hundred : hundred.InLimit := by
  constructor <;> rw [Binary64.le_iff] <;> decide +kernel

theorem percentOf_full {v w : Value} {a b : Number} {negative : Bool} {m : Magnitude}
    (hv : v.number? = some a) (hw : w.number? = some b) (hplace : a.position? = b.position?)
    (h0 : .int 0 ≤ b) (hz : b.isZero = false) (hx : b.toBinary64 = .ok (.finite negative m)) :
    percentOf v w = .ok hundred := by
  obtain ⟨rfl, hpos⟩ := Number.units_pos h0 hz hx
  obtain ⟨p, hp, -⟩ := percentOf_inLimit hw hw h0 hx h0 hz hx (by omega)
  obtain rfl := (percentOf_self hw h0 hp).1
  exact (percentOf_congr (Value.toBinary64_orZero_congr hv hw hplace)).mpr hp

/-- A rounder that fits takes them, and leaves them 100 percent at least. -/
theorem Rounder.exists_round_hundred {r : Rounder} (hr : r.Fits) :
    ∃ x, r.round hundred = .ok x ∧ hundred ≤ x := by
  obtain ⟨x, hx⟩ := exists_round_of_fits hr inLimit_hundred
  exact ⟨x, hx, whole_le_round isWhole_hundred (Binary64.le_refl hundred_ne_nan) hx⟩

end ExamAdmission
