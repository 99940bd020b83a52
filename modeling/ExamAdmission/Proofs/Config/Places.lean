import ExamAdmission.Config.RuleConfig
import ExamAdmission.Proofs.Outcome

/-! Rounding policies and their rounders. Without rounding any decimals will do; else there is a
rounder as long as the decimals have a last place. -/

namespace ExamAdmission

namespace Bearing

variable {bearing : Bearing} {decimals : ℕ} {r : Rounder} {e : Fault}

theorem rounder_eq_ok : bearing.rounder decimals = .ok r ↔
    decimals ≤ mostDecimals ∧ r = .toPlaces bearing decimals := by
  unfold rounder
  by_cases h : mostDecimals < decimals
  · simp [h, Nat.not_le.mpr h]
  · simp [h, Nat.not_lt.mp h, eq_comm]

theorem rounder_eq_error : bearing.rounder decimals = .error e ↔
    mostDecimals < decimals ∧ e = .arithmetic .invalidOperation := by
  unfold rounder
  by_cases h : mostDecimals < decimals <;> simp [h, eq_comm]

end Bearing

namespace RoundingPolicy

variable {policy : RoundingPolicy} {r : Rounder} {e : Fault} {decimals decimals' : ℕ}

/-- At most so many decimals, or no rounding at all. -/
def UpTo (policy : RoundingPolicy) (decimals : ℕ) : Prop :=
  policy.type = .none ∨ policy.decimals ≤ decimals

theorem UpTo.mono (h : policy.UpTo decimals) (hle : decimals ≤ decimals') :
    policy.UpTo decimals' := h.imp_right fun h => Nat.le_trans h hle

theorem rounder_of_ne_none (h : policy.type ≠ .none) :
    ∃ bearing : Bearing, policy.rounder = bearing.rounder policy.decimals := by
  obtain ⟨type, decimals⟩ := policy
  cases type with
  | none => exact absurd rfl h
  | normal => exact ⟨_, rfl⟩
  | up => exact ⟨_, rfl⟩
  | down => exact ⟨_, rfl⟩

theorem rounder_of_none (h : policy.type = .none) : policy.rounder = .ok .unchanged := by
  rw [rounder, h]
  rfl

theorem rounder_eq_ok (h : policy.rounder = .ok r) :
    (policy.type = .none ∧ r = .unchanged) ∨
      policy.type ≠ .none ∧ ∃ bearing, r = .toPlaces bearing policy.decimals := by
  by_cases hnone : policy.type = .none
  · exact .inl ⟨hnone, (Except.ok.inj ((rounder_of_none hnone).symm.trans h)).symm⟩
  · obtain ⟨bearing, hr⟩ := rounder_of_ne_none hnone
    rw [hr, Bearing.rounder_eq_ok] at h
    exact .inr ⟨hnone, bearing, h.2⟩

theorem rounder_eq_error : policy.rounder = .error e ↔
    ¬ policy.UpTo mostDecimals ∧ e = .arithmetic .invalidOperation := by
  by_cases hnone : policy.type = .none
  · simp [rounder_of_none hnone, UpTo, hnone]
  · obtain ⟨bearing, hr⟩ := rounder_of_ne_none hnone
    rw [hr, Bearing.rounder_eq_error, UpTo, or_iff_right hnone, Nat.not_le]

theorem exists_rounder_iff : (∃ r, policy.rounder = .ok r) ↔ policy.UpTo mostDecimals := by
  cases h : policy.rounder with
  | ok r =>
    refine iff_of_true ⟨r, rfl⟩ ?_
    by_contra hplaces
    cases h.symm.trans (rounder_eq_error.mpr ⟨hplaces, rfl⟩)
  | error e =>
    refine iff_of_false ?_ (rounder_eq_error.mp h).1
    rintro ⟨r, ⟨⟩⟩

end RoundingPolicy

/-- All roundings of a configuration are to at most so many decimals. -/
def RuleConfig.UpTo (decimals : ℕ) : RuleConfig → Prop
  | .base _ => True
  | .share _ terms => terms.passedRounding.UpTo decimals ∧ terms.achievedRounding.UpTo decimals
  | .overall _ terms => terms.achievedRounding.UpTo decimals

end ExamAdmission
