import ExamAdmission.Proofs.Config.Ranges
import ExamAdmission.Proofs.Rounding.FullPoints
import ExamAdmission.Rule.Rule

/-! Quotas of share rules. The share that a percent makes of the assignments always exists; only
rounding it can take more than 28 digits. -/

namespace ExamAdmission

attribute [local irreducible] rangeEnd Binary64.unit

theorem Decimal.Scales.exists_le {op : Decimal → Except ArithmeticFault Decimal} {factor : ℚ}
    {x : Decimal} {m : ℕ} {e : ℤ} (h : Scales op factor) (hf : 0 ≤ factor)
    (h0 : .finite false 0 0 ≤ x) (hle : x ≤ .finite false m e) :
    ∃ y, op x = .ok y ∧ .finite false 0 0 ≤ y ∧
      ∀ (n : ℕ) (k : ℤ), n < 10 ^ 28 → (m : ℚ) * 10 ^ e * factor ≤ n * 10 ^ k →
        y ≤ .finite false n k := by
  obtain ⟨a, c, f, rfl⟩ : ∃ a c f, x = .finite a c f := by
    rcases x with _ | (_ | _) | ⟨a, c, f⟩
    · simp at h0
    · simp at hle
    · simp at h0
    · exact ⟨a, c, f, rfl⟩
  obtain ⟨c', k', hop, -⟩ := h.finite a c f
  refine ⟨_, hop, h.nonneg hf h0 hop, fun n k hn hbound => ?_⟩
  obtain ⟨c₀, k₀, hop₀, hround⟩ := h.finite false m e
  have hlast := hround.mono (FloatFormat.decimals_self k hn) hbound
  refine Decimal.le_trans (h.mono hf hle hop hop₀) ?_
  simpa [signed] using hlast

theorem Decimal.nonneg_toBinary64 {d : Decimal} (h : .finite false 0 0 ≤ d) :
    .finite false 0 0 ≤ ofBinary64 d.toBinary64 := by
  rw [← ofBinary64_zero, ← toBinary64_zero false 0]
  exact ofBinary64_mono (toBinary64_mono h)

namespace Binary64.IsPercent

variable {p : Binary64}

theorem le_hundred (hp : p.IsPercent) : p ≤ hundred :=
  Number.float_le_float.mp ((Number.le_congr rfl position?_hundred).mpr hp.2)

theorem decimal (hp : p.IsPercent) :
    .finite false 0 0 ≤ Decimal.ofBinary64 p ∧ Decimal.ofBinary64 p ≤ .finite false 1 2 := by
  rw [← ofBinary64_hundred, ← Decimal.ofBinary64_zero]
  exact ⟨Decimal.ofBinary64_mono (Number.zero_le_float.mp hp.1),
    Decimal.ofBinary64_mono hp.le_hundred⟩

theorem exists_fractionOfPercent (hp : p.IsPercent) : ∃ q, fractionOfPercent p = .ok q ∧
    .finite false 0 0 ≤ Decimal.ofBinary64 q ∧ Decimal.ofBinary64 q ≤ .finite false 1 0 := by
  obtain ⟨d, hd, h0, hle⟩ := (Decimal.scales_div 0 (by decide : 0 < 100)).exists_le (by norm_num)
    hp.decimal.1 hp.decimal.2
  have hone : Decimal.ofBinary64 (Decimal.finite false 1 0).toBinary64 = .finite false 1 0 := by
    decide +kernel
  refine ⟨d.toBinary64, bind_eq_ok.mpr ⟨d, liftArithmetic_eq_ok.mpr hd, rfl⟩,
    Decimal.nonneg_toBinary64 h0, ?_⟩
  rw [← hone]
  exact Decimal.ofBinary64_mono (Decimal.toBinary64_mono (hle 1 0 (by norm_num) (by norm_num)))

theorem exists_quota_le (hp : p.IsPercent) (count : ℕ) :
    ∃ x, Rule.quota .unchanged count p = .ok x ∧ .finite false 0 0 ≤ Decimal.ofBinary64 x ∧
      ∀ w, count < 10 ^ 28 → .finite false count 0 ≤ Decimal.ofBinary64 w → x ≤ w := by
  obtain ⟨q, hq, hq0, hq1⟩ := hp.exists_fractionOfPercent
  obtain ⟨d, hd, h0, hle⟩ :=
    (Decimal.scales_mul_count count).exists_le count.cast_nonneg hq0 hq1
  refine ⟨d.toBinary64, ?_, Decimal.nonneg_toBinary64 h0, fun w hcount hw => ?_⟩
  · refine bind_eq_ok.mpr ⟨q, hq, bind_eq_ok.mpr ⟨d.toBinary64, ?_, rfl⟩⟩
    exact bind_eq_ok.mpr ⟨d, liftArithmetic_eq_ok.mpr hd, rfl⟩
  · have hshare : d ≤ .finite false count 0 := hle count 0 hcount (by norm_num)
    have hback := Decimal.toBinary64_mono (Decimal.le_trans hshare hw)
    rwa [Decimal.toBinary64_ofBinary64] at hback

theorem exists_quota (hp : p.IsPercent) (count : ℕ) :
    ∃ x, Rule.quota .unchanged count p = .ok x ∧ .finite false 0 0 ≤ Decimal.ofBinary64 x ∧
      (count ≤ 10 ^ 15 → Decimal.ofBinary64 x ≤ .finite false (10 ^ 15) 0) := by
  obtain ⟨x, hx, h0, hle⟩ := hp.exists_quota_le count
  refine ⟨x, hx, h0, fun hcount => ?_⟩
  have hlimit : Decimal.ofBinary64 (Decimal.finite false 1 15).toBinary64 = .finite false 1 15 := by
    decide +kernel
  have hbound : Decimal.finite false count 0 ≤ .finite false 1 15 := by
    have hcast : (count : ℚ) ≤ 10 ^ 15 := by exact_mod_cast hcount
    simpa [signed] using hcast
  have hxw := hle (Decimal.finite false 1 15).toBinary64 (by omega) (by rwa [hlimit])
  refine Decimal.le_trans (Decimal.ofBinary64_mono hxw) ?_
  rw [hlimit]
  norm_num [signed]

end Binary64.IsPercent

namespace Rule

variable {rounder : Rounder} {count : ℕ} {p x : Binary64} {e : Fault}

theorem quota_of_unchanged (hx : quota .unchanged count p = .ok x) :
    quota rounder count p = rounder.round x := by
  obtain ⟨q, hq, hrest⟩ := bind_eq_ok.mp hx
  obtain ⟨_, hshare, ⟨⟩⟩ := bind_eq_ok.mp hrest
  simp only [quota, hq, hshare, bind, Except.bind]

theorem quota_le_count (hp : p.IsPercent) (hcount : count < 2 ^ 53)
    (h : quota rounder count p = .ok x) : Number.float x ≤ .int count := by
  obtain ⟨m, hm⟩ := Magnitude.exists_of_le hcount.le isStep_unit
  have hwhole := Binary64.isWhole_of_units hm hcount
  have hplace : (Number.float (.finite false m)).position? = (Number.int count).position? := by
    simp [Number.position?, Binary64.position?, Binary64.signedUnits, Position.ofInt, hm]
  obtain ⟨y, hy, -, hle⟩ := hp.exists_quota_le count
  rw [quota_of_unchanged hy] at h
  have hshare := hle _ (hcount.trans (by norm_num)) hwhole.decimal_le
  exact (Number.le_congr rfl hplace).mp (Rounder.round_le_whole hwhole hshare h)

theorem quota_eq_error (hp : p.IsPercent) : quota rounder count p = .error e ↔
    (∃ x, quota .unchanged count p = .ok x ∧ rounder.Exceeds x) ∧
      e = .arithmetic .invalidOperation := by
  obtain ⟨x, hx, -⟩ := hp.exists_quota count
  rw [quota_of_unchanged hx, Rounder.round_eq_error, hx]
  simp

end Rule

end ExamAdmission
