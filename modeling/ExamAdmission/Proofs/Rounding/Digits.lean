import ExamAdmission.Proofs.Rounding.Order

/-! The one thing a rounder cannot do: a multiple of its last place that has more than 28 digits.
Whether it comes to that shows in the size of the number. -/

namespace ExamAdmission

attribute [local irreducible] rangeEnd Binary64.unit

namespace Rounder

variable {r : Rounder} {x : Binary64}

/-- The multiple of the last place that a number is rounded to has more than 28 digits. -/
def Exceeds (r : Rounder) (x : Binary64) : Prop :=
  match r, Decimal.ofBinary64 x with
  | .toPlaces bearing places, .finite a c e =>
    ∃ m, (bearing.direction a).Rounds (c * 10 ^ (e + places)) m ∧ 10 ^ 28 ≤ m
  | .toPlaces _ _, .infinite _ => True
  | _, _ => False

theorem round_eq_error {e : Fault} :
    r.round x = .error e ↔ r.Exceeds x ∧ e = .arithmetic .invalidOperation := by
  cases r with
  | unchanged => simp [round, Exceeds]
  | toPlaces bearing places =>
    cases hd : Decimal.ofBinary64 x with
    | nan =>
      have hround : (toPlaces bearing places).round x = .ok Decimal.nan.toBinary64 := by
        rw [round, hd]
        rfl
      simp [hround, Exceeds, hd]
    | infinite a =>
      have hround :
          (toPlaces bearing places).round x = .error (.arithmetic .invalidOperation) := by
        rw [round, hd]
        rfl
      simp [hround, Exceeds, hd, eq_comm]
    | finite a c k =>
      obtain ⟨m, hm, ho⟩ := Decimal.toPlaces_finite bearing places a c k
      have hexceeds : (toPlaces bearing places).Exceeds x ↔ 10 ^ 28 ≤ m := by
        simp only [Exceeds, hd]
        refine ⟨?_, fun hle => ⟨m, hm, hle⟩⟩
        rintro ⟨n, hn, hle⟩
        exact hm.unique hn ▸ hle
      rw [hexceeds, round, hd, ho]
      by_cases hlt : m < 10 ^ 28
      · rw [if_pos hlt]
        exact iff_of_false (fun h => by cases h) fun h => Nat.not_lt.mpr h.1 hlt
      · rw [if_neg hlt]
        exact ⟨fun h => ⟨Nat.le_of_not_lt hlt, (Except.error.inj h).symm⟩, fun h => h.2 ▸ rfl⟩

theorem exists_round_iff : (∃ y, r.round x = .ok y) ↔ ¬ r.Exceeds x := by
  constructor
  · rintro ⟨y, hy⟩ he
    rw [round_eq_error.mpr ⟨he, rfl⟩] at hy
    cases hy
  · intro he
    cases h : r.round x with
    | ok y => exact ⟨y, rfl⟩
    | error e => exact absurd (round_eq_error.mp h).1 he

section Size

variable {bearing : Bearing} {places limit : ℕ}

theorem not_exceeds_of_le (h0 : .finite false 0 0 ≤ Decimal.ofBinary64 x)
    (hle : Decimal.ofBinary64 x ≤ .finite false limit 0) (hlimit : limit * 10 ^ places < 10 ^ 28) :
    ¬ (toPlaces bearing places).Exceeds x := by
  cases hd : Decimal.ofBinary64 x with
  | nan => simp [Exceeds, hd]
  | infinite a =>
    rw [hd] at h0 hle
    cases a <;> simp at h0 hle
  | finite a c e =>
    rw [hd, Decimal.finite_le_finite] at h0 hle
    simp only [Exceeds, hd]
    rintro ⟨m, hm, hdigits⟩
    have hsize : (c : ℚ) * 10 ^ e ≤ limit := by
      have hc := Decimal.scaled_nonneg c e
      cases a with
      | false => simpa [signed] using hle
      | true =>
        have hzero : (c : ℚ) * 10 ^ e ≤ 0 := by simpa [signed] using h0
        exact hzero.trans limit.cast_nonneg
    have hmultiple : (c : ℚ) * 10 ^ (e + places) ≤ (limit * 10 ^ places : ℕ) := by
      rw [ten_zpow_add, ← mul_assoc, zpow_natCast, Nat.cast_mul, Nat.cast_pow, Nat.cast_ofNat]
      exact mul_le_mul_of_nonneg_right hsize (by positivity)
    have := hm.le_natCast hmultiple
    omega

theorem exceeds_of_le (hle : .finite false limit 0 ≤ Decimal.ofBinary64 x)
    (hpos : 0 < limit) (hlimit : 10 ^ 28 ≤ limit * 10 ^ places) :
    (toPlaces bearing places).Exceeds x := by
  cases hd : Decimal.ofBinary64 x with
  | nan => simp [hd] at hle
  | infinite a => simp [Exceeds, hd]
  | finite a c e =>
    rw [hd, Decimal.finite_le_finite] at hle
    have hlimit' : (0 : ℚ) < limit := by exact_mod_cast hpos
    have hsize : (limit : ℚ) ≤ c * 10 ^ e := by
      cases a with
      | false => simpa [signed] using hle
      | true =>
        have hneg : (limit : ℚ) ≤ -(c * 10 ^ e) := by simpa [signed] using hle
        linarith [Decimal.scaled_nonneg c e]
    have hmultiple : ((limit * 10 ^ places : ℕ) : ℚ) ≤ c * 10 ^ (e + places) := by
      rw [ten_zpow_add, ← mul_assoc, zpow_natCast, Nat.cast_mul, Nat.cast_pow, Nat.cast_ofNat]
      exact mul_le_mul_of_nonneg_right hsize (by positivity)
    obtain ⟨m, hm, -⟩ := Decimal.toPlaces_finite bearing places a c e
    simp only [Exceeds, hd]
    exact ⟨m, hm, hlimit.trans (hm.natCast_le hmultiple)⟩

end Size

end Rounder

end ExamAdmission
