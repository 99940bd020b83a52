import ExamAdmission.Proofs.Arithmetic.FifteenDigits
import ExamAdmission.Proofs.Config.Places
import ExamAdmission.Proofs.Rule.Building
import ExamAdmission.Proofs.Rule.Counting
import ExamAdmission.Proofs.Rule.Quota

/-! Quotas of at most fifteen digits. On the way from a percent to a quota nothing is lost but what
the policy rounds away, although both the fraction and the share are kept as doubles. -/

namespace ExamAdmission

attribute [local irreducible] rangeEnd Binary64.unit

/-- What the shortest digits of a double say, without its sign. -/
def Binary64.written (x : Binary64) : ℚ :=
  match Decimal.ofBinary64 x with
  | .finite _ c e => c * 10 ^ e
  | _ => 0

theorem Binary64.written_of_decimal {x : Binary64} {a : Bool} {c : ℕ} {e : ℤ}
    (h : Decimal.ofBinary64 x = .finite a c e) : x.written = c * 10 ^ e := by
  rw [written, h]

/-- The direction of a rounding type, which moves numbers that are not negative. -/
def RoundingType.direction? : RoundingType → Option Direction
  | .none => Option.none
  | .normal => some .halfUp
  | .up => some .up
  | .down => some .down

namespace RoundingPolicy

variable {policy : RoundingPolicy} {r : Rounder} {v w : ℚ} {k : ℕ}

/-- What an exact number becomes by a policy. -/
def Leads (policy : RoundingPolicy) (v w : ℚ) : Prop :=
  match policy.type.direction? with
  | none => w = v
  | some d => ∃ m : ℕ, d.Rounds (v * 10 ^ policy.decimals) m ∧ w = m / 10 ^ policy.decimals

theorem Leads.eq_natCast (h : policy.Leads k w) : w = k := by
  unfold Leads at h
  split at h
  · exact h
  · obtain ⟨m, hm, rfl⟩ := h
    rw [← Nat.cast_ofNat, ← Nat.cast_pow, ← Nat.cast_mul] at hm
    rw [hm.eq_natCast]
    push_cast
    field_simp

theorem rounder_direction (h : policy.rounder = .ok r) :
    (policy.type.direction? = none ∧ r = .unchanged) ∨
      ∃ bearing, policy.type.direction? = some (bearing.direction false) ∧
        r = .toPlaces bearing policy.decimals := by
  obtain ⟨type, decimals⟩ := policy
  cases type with
  | none => exact .inl ⟨rfl, (Except.ok.inj h).symm⟩
  | normal => exact .inr ⟨.nearest, rfl, (Bearing.rounder_eq_ok.mp h).2⟩
  | up => exact .inr ⟨.ceiling, rfl, (Bearing.rounder_eq_ok.mp h).2⟩
  | down => exact .inr ⟨.floor, rfl, (Bearing.rounder_eq_ok.mp h).2⟩

end RoundingPolicy

namespace Binary64.IsPercent

variable {p q x : Binary64}

theorem exists_written (hp : p.IsPercent) : ∃ a c e, Decimal.ofBinary64 p = .finite a c e ∧
    p.written = c * 10 ^ e ∧ (a = true → p.written = 0) := by
  obtain ⟨h0, h1⟩ := hp.decimal
  rcases hd : Decimal.ofBinary64 p with _ | (_ | _) | ⟨a, c, e⟩
  · rw [hd] at h0
    exact absurd h0 Decimal.not_le_nan
  · rw [hd] at h1
    exact absurd h1 Decimal.not_posInfinite_le_finite
  · rw [hd] at h0
    exact absurd h0 Decimal.not_finite_le_negInfinite
  · refine ⟨a, c, e, rfl, written_of_decimal hd, fun ha => ?_⟩
    rw [hd, ha, Decimal.finite_le_finite] at h0
    have hnonneg := Decimal.scaled_nonneg c e
    simp only [signed, Bool.false_eq_true, if_false, if_true, Nat.cast_zero, zero_mul] at h0
    rw [written_of_decimal hd]
    linarith

/-- The fraction that a percent makes is written as the hundredth of the percent. -/
theorem written_fraction (hp : p.IsPercent) (hdigits : FifteenDigits p.written)
    (hsize : p.written = 0 ∨ (10 : ℚ) ^ (-6 : ℤ) ≤ p.written) (h : fractionOfPercent p = .ok q) :
    ∃ a c e, Decimal.ofBinary64 q = .finite a c e ∧ (c : ℚ) * 10 ^ e = p.written / 100 ∧
      (a = true → p.written = 0) := by
  obtain ⟨a, c, e, hd, hvalue, hsign⟩ := hp.exists_written
  obtain ⟨q', hq', h0, h1⟩ := hp.exists_fractionOfPercent
  cases h.symm.trans hq'
  obtain ⟨d, hdiv, rfl⟩ : ∃ d, (Decimal.ofBinary64 p).div (.ofInt 100) = .ok d ∧
      d.toBinary64 = q := by
    obtain ⟨d, hdiv, ⟨⟩⟩ := bind_eq_ok.mp h
    exact ⟨d, liftArithmetic_eq_ok.mp hdiv, rfl⟩
  obtain ⟨c', k, hfraction, hround⟩ := (Decimal.scales_div 0 (by decide : 0 < 100)).finite a c e
  cases hdiv.symm.trans (hd ▸ hfraction)
  have hexact : (c' : ℚ) * 10 ^ k = p.written / 100 := by
    refine hdigits.div_hundred.rounds_eq ?_
    rw [hvalue]
    simpa [div_eq_mul_inv] using hround
  have hsmall : p.written / 100 = 0 ∨ (10 : ℚ) ^ (-8 : ℤ) ≤ p.written / 100 := by
    refine hsize.imp (fun hzero => by rw [hzero, zero_div]) fun hsize => ?_
    rw [le_div_iff₀ (by norm_num)]
    norm_num at hsize ⊢
    exact hsize
  have hnear := Binary64.nearest_ofDecimal a c' k
  rw [hexact] at hnear
  rcases hdigits.div_hundred.decimal_of_nearest
    (hsmall.imp_right (ten_zpow_le (by norm_num)).trans) hnear with hinf | ⟨c'', e'', hq, hvalue'⟩
  · -- a fraction is between zero and one
    rw [Decimal.toBinary64, hinf] at h0 h1
    cases a with
    | false => exact absurd h1 Decimal.not_posInfinite_le_finite
    | true => exact absurd h0 Decimal.not_finite_le_negInfinite
  · exact ⟨a, c'', e'', hq, hvalue', hsign⟩

theorem nearest_share (hp : p.IsPercent) (hdigits : FifteenDigits p.written)
    (hsize : p.written = 0 ∨ (10 : ℚ) ^ (-6 : ℤ) ≤ p.written) {n : ℕ}
    (hshare : FifteenDigits (n * p.written / 100)) (h : Rule.quota .unchanged n p = .ok x) :
    ∃ a, (a = true → p.written = 0) ∧
      Binary64.Nearest a (n * p.written / 100 * Binary64.unit) x := by
  obtain ⟨q, hq, hrest⟩ := bind_eq_ok.mp h
  obtain ⟨_, hcount, ⟨⟩⟩ := bind_eq_ok.mp hrest
  obtain ⟨d, hmul, ⟨⟩⟩ := bind_eq_ok.mp hcount
  obtain ⟨a, c, e, hd, hvalue, hsign⟩ := hp.written_fraction hdigits hsize hq
  obtain ⟨c', k, hscaled, hround⟩ := (Decimal.scales_mul_count n).finite a c e
  cases (liftArithmetic_eq_ok.mp hmul).symm.trans (hd ▸ hscaled)
  have hexact : (c' : ℚ) * 10 ^ k = n * p.written / 100 := by
    refine hshare.rounds_eq ?_
    rwa [hvalue, div_mul_eq_mul_div, mul_comm p.written] at hround
  refine ⟨a, hsign, ?_⟩
  rw [← hexact]
  exact Binary64.nearest_ofDecimal a c' k

end Binary64.IsPercent

namespace Rule

variable {policy : RoundingPolicy} {rounder : Rounder} {v : ℚ} {a : Bool} {x q : Binary64}

theorem nearest_round (hpolicy : policy.rounder = .ok rounder) (hdigits : FifteenDigits v)
    (hsize : v = 0 ∨ (10 : ℚ) ^ (-8 : ℤ) ≤ v) (hsign : a = true → v = 0)
    (hx : Binary64.Nearest a (v * Binary64.unit) x) (h : rounder.round x = .ok q) :
    ∃ w, policy.Leads v w ∧ (a = true → w = 0) ∧ Binary64.Nearest a (w * Binary64.unit) q := by
  unfold RoundingPolicy.Leads
  rcases policy.rounder_direction hpolicy with ⟨htype, rfl⟩ | ⟨bearing, htype, rfl⟩
  · cases h
    rw [htype]
    exact ⟨v, rfl, hsign, hx⟩
  · rw [htype]
    obtain ⟨y, hy, ⟨⟩⟩ := bind_eq_ok.mp h
    have hplaces := liftArithmetic_eq_ok.mp hy
    rcases hdigits.decimal_of_nearest (hsize.imp_right (ten_zpow_le (by norm_num)).trans) hx with
      rfl | ⟨c, e, hd, hvalue⟩
    · cases hplaces
    · rw [hd] at hplaces
      obtain ⟨m, hm, rfl⟩ := Decimal.toPlaces_value hplaces
      rw [hvalue] at hm
      have hrounds : (bearing.direction false).Rounds (v * 10 ^ policy.decimals) m ∧
          (a = true → m = 0) := by
        rw [Nat.cast_pow, Nat.cast_ofNat] at hm
        cases a with
        | false => exact ⟨hm, nofun⟩
        | true =>
          rw [hsign rfl, zero_mul, ← Nat.cast_zero] at hm ⊢
          have hzero := hm.eq_natCast
          exact ⟨hzero ▸ .natCast _ _, fun _ => hzero⟩
      refine ⟨m / 10 ^ policy.decimals, ⟨m, hrounds.1, rfl⟩, fun ha => ?_, ?_⟩
      · rw [hrounds.2 ha, Nat.cast_zero, zero_div]
      · have hnear := Binary64.nearest_ofDecimal a m (-policy.decimals)
        rwa [zpow_neg, zpow_natCast, ← div_eq_mul_inv] at hnear

/-- With a percent of 15 digits and a share of 15 digits the quota is the exact share, rounded as
the policy says, in the double next to it. A whole share is the quota itself in every policy. -/
theorem exact_quota {config : RuleConfig} {terms : ShareTerms} {assignments : List Assignment}
    {rule : Rule} {n : ℕ} (hconfig : config.InRange) (hterms : shareTerms config = .ok terms)
    (h : build .share config assignments = .ok rule)
    (hn : (assignmentsOfType config.header.assignmentType assignments).length = n)
    (hdigits : FifteenDigits terms.passedPercent.written)
    (hsize : terms.passedPercent.written = 0 ∨ (10 : ℚ) ^ (-6 : ℤ) ≤ terms.passedPercent.written)
    (hshare : FifteenDigits (n * terms.passedPercent.written / 100)) :
    ∃ rounder quota w negative, rule.measure = .share rounder terms.requiredPercent quota ∧
      terms.passedRounding.Leads (n * terms.passedPercent.written / 100) w ∧
      (negative = true → w = 0) ∧ Binary64.Nearest negative (w * Binary64.unit) quota ∧
      ∀ k : ℕ, n * terms.passedPercent.written / 100 = k → w = k := by
  obtain ⟨_, passedRounder, rounder, quota, hterms', hpassed, -, hbasis, hquota, hm⟩ :=
    build_share_eq_ok h
  cases hterms.symm.trans hterms'
  obtain ⟨_, _, -, hrelevant, -⟩ := RuleBasis.build_eq_ok hbasis
  rw [hrelevant, hn] at hquota
  have hpercent := (isPercent_shareTerms hconfig hterms).1
  obtain ⟨x, hx, -⟩ := hpercent.exists_quota n
  obtain ⟨negative, hsign, hnear⟩ := hpercent.nearest_share hdigits hsize hshare hx
  rw [quota_of_unchanged hx] at hquota
  have hsmall : (n : ℚ) * terms.passedPercent.written / 100 = 0 ∨
      (10 : ℚ) ^ (-8 : ℤ) ≤ n * terms.passedPercent.written / 100 := by
    rcases hsize with hzero | hsize
    · exact .inl (by rw [hzero, mul_zero, zero_div])
    · rcases Nat.eq_zero_or_pos n with rfl | hpos
      · exact .inl (by simp)
      · have hone : (1 : ℚ) ≤ n := by exact_mod_cast hpos
        have hmul := mul_le_mul hone hsize (ten_zpow_pos _).le n.cast_nonneg
        rw [le_div_iff₀ (by norm_num)]
        norm_num at hmul ⊢
        exact .inr hmul
  obtain ⟨w, hleads, hzero, hq⟩ := nearest_round hpassed hshare hsmall
    (fun ha => by rw [hsign ha, mul_zero, zero_div]) hnear hquota
  refine ⟨rounder, quota, w, negative, hm, hleads, hzero, hq, fun k hk => ?_⟩
  rw [hk] at hleads
  exact hleads.eq_natCast

/-- A course with a hundred homeworks. -/
def Sample.hundredHomeworks : List Assignment :=
  (List.range 100).map fun k => ⟨.text (integerText k), .text "c", .text "HOMEWORK", .int 10⟩

/-- Seven percent of a hundred assignments are seven, and the ceiling is not eight. -/
theorem exact_quota_seven_of_hundred :
    ∃ rule rounder quota negative,
      build .share (.share Sample.header (Sample.terms 7 .up .none)) Sample.hundredHomeworks =
        .ok rule ∧
      rule.measure = .share rounder (.ofDecimal false 7 0) quota ∧
      Binary64.Nearest negative (7 * Binary64.unit) quota := by
  have hruns : (build .share (.share Sample.header (Sample.terms 7 .up .none))
      Sample.hundredHomeworks).isOk = true := by decide +kernel
  obtain ⟨rule, hrule⟩ := exists_of_isOk hruns
  have hseven : (Binary64.ofDecimal false 7 0).written = (7 : ℕ) := by
    rw [Binary64.written_of_decimal (a := false) (c := 7) (e := 0) (by decide +kernel)]
    norm_num
  have hpercent : (Binary64.ofDecimal false 7 0).IsPercent := by
    refine ⟨?_, ?_⟩ <;> rw [Number.le_iff] <;> decide +kernel
  have hconfig : RuleConfig.InRange (.share Sample.header (Sample.terms 7 .up .none)) :=
    ⟨hpercent, hpercent⟩
  have hwhole : ((100 : ℕ) : ℚ) * (Binary64.ofDecimal false 7 0).written / 100 = (7 : ℕ) := by
    rw [hseven]
    norm_num
  have hdigits : FifteenDigits (7 : ℕ) := ⟨7, 0, by norm_num, by norm_num⟩
  have hsize : (10 : ℚ) ^ (-6 : ℤ) ≤ (Binary64.ofDecimal false 7 0).written := by
    rw [hseven]
    norm_num
  obtain ⟨rounder, quota, w, negative, hm, -, -, hq, hexact⟩ :=
    exact_quota hconfig rfl hrule (n := 100) (by decide +kernel) (hseven ▸ hdigits) (.inr hsize)
      (hwhole ▸ hdigits)
  rw [hexact 7 hwhole] at hq
  exact ⟨rule, rounder, quota, negative, hrule, hm, hq⟩

end Rule

end ExamAdmission
