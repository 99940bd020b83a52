import ExamAdmission.Proofs.Config.Places
import ExamAdmission.Proofs.Rounding.Order

/-! Rounding types in their order. Rounding down leads nowhere above the number itself nor above
its nearest place, and rounding up nowhere below them. -/

namespace ExamAdmission

attribute [local irreducible] rangeEnd Binary64.unit

namespace Decimal

variable {x y : Decimal} {places : ℕ}

theorem scaled_places (c : ℕ) (e : ℤ) (places : ℕ) :
    (c : ℚ) * 10 ^ (e + places) * 10 ^ (-(places : ℤ)) = c * 10 ^ e := by
  rw [mul_assoc, ← ten_zpow_add, add_neg_cancel_right]

theorem toPlaces_floor_le (hn : x ≠ nan) (h : toPlaces .floor places x = .ok y) : y ≤ x := by
  rcases x with _ | _ | ⟨a, c, e⟩
  · exact absurd rfl hn
  · cases h
  obtain ⟨m, hm, ho⟩ := toPlaces_finite .floor places a c e
  rw [h] at ho
  split at ho
  · have hscale := (ten_zpow_pos (-(places : ℤ))).le
    rw [Except.ok.inj ho, finite_le_finite, ← scaled_places c e places]
    cases a with
    | false => exact mul_le_mul_of_nonneg_right hm.1 hscale
    | true => exact neg_le_neg (mul_le_mul_of_nonneg_right hm.2 hscale)
  · cases ho

theorem le_toPlaces_ceiling (hn : x ≠ nan) (h : toPlaces .ceiling places x = .ok y) : x ≤ y := by
  rcases x with _ | _ | ⟨a, c, e⟩
  · exact absurd rfl hn
  · cases h
  obtain ⟨m, hm, ho⟩ := toPlaces_finite .ceiling places a c e
  rw [h] at ho
  split at ho
  · have hscale := (ten_zpow_pos (-(places : ℤ))).le
    rw [Except.ok.inj ho, finite_le_finite, ← scaled_places c e places]
    cases a with
    | false => exact mul_le_mul_of_nonneg_right hm.2 hscale
    | true => exact neg_le_neg (mul_le_mul_of_nonneg_right hm.1 hscale)
  · cases ho

end Decimal

namespace Rounder

variable {r r' : Rounder} {x y x' y' : Binary64}

theorem round_nan (h : r.round .nan = .ok x') : x' = .nan := by
  cases r with
  | unchanged => exact (Except.ok.inj h).symm
  | toPlaces bearing places => exact (Except.ok.inj h).symm

theorem ne_nan_of_round (h : r.round x = .ok x') (hn : x' ≠ .nan) : x ≠ .nan := by
  rintro rfl
  exact hn (round_nan h)

/-- Rounders of which the first never leads above the second. -/
def AtMost : Rounder → Rounder → Prop
  | .unchanged, .unchanged => True
  | .toPlaces bearing _, .unchanged => bearing = .floor
  | .unchanged, .toPlaces bearing _ => bearing = .ceiling
  | .toPlaces bearing places, .toPlaces bearing' places' =>
    places = places' ∧ bearing.AtMost bearing'

theorem AtMost.refl (r : Rounder) : r.AtMost r := by
  cases r with
  | unchanged => trivial
  | toPlaces bearing places => exact ⟨rfl, .inl rfl⟩

theorem round_floor_le {places : ℕ} (hn : x ≠ .nan)
    (hx : (toPlaces .floor places).round x = .ok x') : x' ≤ x := by
  obtain ⟨d, hd, ⟨⟩⟩ := bind_eq_ok.mp hx
  have hne : Decimal.ofBinary64 x ≠ .nan := fun h => hn (Decimal.ofBinary64_eq_nan.mp h)
  have hle := Decimal.toBinary64_mono
    (Decimal.toPlaces_floor_le hne (liftArithmetic_eq_ok.mp hd))
  rwa [Decimal.toBinary64_ofBinary64] at hle

theorem le_round_ceiling {places : ℕ} (hn : x ≠ .nan)
    (hx : (toPlaces .ceiling places).round x = .ok x') : x ≤ x' := by
  obtain ⟨d, hd, ⟨⟩⟩ := bind_eq_ok.mp hx
  have hne : Decimal.ofBinary64 x ≠ .nan := fun h => hn (Decimal.ofBinary64_eq_nan.mp h)
  have hle := Decimal.toBinary64_mono
    (Decimal.le_toPlaces_ceiling hne (liftArithmetic_eq_ok.mp hd))
  rwa [Decimal.toBinary64_ofBinary64] at hle

theorem AtMost.round_le (h : r.AtMost r') (hxy : x ≤ y) (hx : r.round x = .ok x')
    (hy : r'.round y = .ok y') : x' ≤ y' := by
  have hxn : x ≠ .nan := by
    rintro rfl
    exact Binary64.not_nan_le hxy
  have hyn : y ≠ .nan := by
    rintro rfl
    exact Binary64.not_le_nan hxy
  cases r with
  | unchanged =>
    cases hx
    cases r' with
    | unchanged =>
      cases hy
      exact hxy
    | toPlaces bearing places =>
      obtain rfl : bearing = .ceiling := h
      exact Binary64.le_trans hxy (le_round_ceiling hyn hy)
  | toPlaces bearing places =>
    cases r' with
    | unchanged =>
      obtain rfl : bearing = .floor := h
      cases hy
      exact Binary64.le_trans (round_floor_le hxn hx) hxy
    | toPlaces bearing' places' =>
      obtain ⟨rfl, hb⟩ := h
      obtain ⟨d, hd, ⟨⟩⟩ := bind_eq_ok.mp hx
      obtain ⟨d', hd', ⟨⟩⟩ := bind_eq_ok.mp hy
      exact Decimal.toBinary64_mono (Decimal.toPlaces_le_toPlaces hb (Decimal.ofBinary64_mono hxy)
        (liftArithmetic_eq_ok.mp hd) (liftArithmetic_eq_ok.mp hd'))

end Rounder

/-- Rounding types of which the first never leads above the second: down below none below up, and
down below normal below up. -/
def RoundingType.AtMost (t t' : RoundingType) : Prop := t = t' ∨ t = .down ∨ t' = .up

theorem RoundingType.AtMost.rounder {t t' : RoundingType} {decimals : ℕ} {r r' : Rounder}
    (h : t.AtMost t') (hr : t.rounder decimals = .ok r) (hr' : t'.rounder decimals = .ok r') :
    r.AtMost r' := by
  rcases h with rfl | rfl | rfl
  · cases hr.symm.trans hr'
    exact .refl r
  · obtain ⟨-, rfl⟩ := Bearing.rounder_eq_ok.mp hr
    cases t' with
    | none =>
      cases hr'
      rfl
    | _ =>
      obtain ⟨-, rfl⟩ := Bearing.rounder_eq_ok.mp hr'
      exact ⟨rfl, .inr (.inl rfl)⟩
  · obtain ⟨-, rfl⟩ := Bearing.rounder_eq_ok.mp hr'
    cases t with
    | none =>
      cases hr
      rfl
    | _ =>
      obtain ⟨-, rfl⟩ := Bearing.rounder_eq_ok.mp hr
      exact ⟨rfl, .inr (.inr rfl)⟩

/-- Policies of the same decimals in the order of their types. -/
structure RoundingPolicy.AtMost (policy policy' : RoundingPolicy) : Prop where
  decimals : policy.decimals = policy'.decimals
  type : policy.type.AtMost policy'.type

theorem RoundingPolicy.AtMost.rounder {policy policy' : RoundingPolicy} {r r' : Rounder}
    (h : policy.AtMost policy') (hr : policy.rounder = .ok r) (hr' : policy'.rounder = .ok r') :
    r.AtMost r' := by
  unfold RoundingPolicy.rounder at hr hr'
  rw [h.decimals] at hr
  exact h.type.rounder hr hr'

end ExamAdmission
