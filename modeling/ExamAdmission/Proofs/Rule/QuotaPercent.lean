import ExamAdmission.Proofs.Rounding.WholePoints
import ExamAdmission.Proofs.Rule.Building
import ExamAdmission.Proofs.Rule.Counting
import ExamAdmission.Proofs.Rule.Quota

/-! The percent of a quota. It is on the side of 100 on which the passed assignments are of the
quota, however near to their number a quota that is not whole may be. -/

namespace ExamAdmission

attribute [local irreducible] rangeEnd Binary64.unit

/-- The gap leads from 100 to other doubles. -/
theorem hundred_between :
    Number.float (Decimal.finite false 9999999999999999289 (-17)).toBinary64 < .float hundred ∧
      Number.float hundred <
        .float (Decimal.finite false 10000000000000000711 (-17)).toBinary64 := by
  refine ⟨⟨?_, ?_⟩, ?_, ?_⟩ <;> rw [Number.le_iff] <;> decide +kernel

/-- What is by the gap smaller than 100 is written as a double before it. -/
theorem percent_lt_hundred {c : ℕ} {e : ℤ} {q : ℚ}
    (h : FloatFormat.decimals.Rounds q (c * 10 ^ e)) (hq : q ≤ 100 * (1 - gap)) :
    Number.float (Decimal.finite false c e).toBinary64 < .float hundred := by
  have hself := FloatFormat.decimals_self (-17) (by decide : 9999999999999999289 < 10 ^ 28)
  have hround := h.mono hself (hq.trans (by norm_num [gap]))
  have hle : Decimal.finite false c e ≤ .finite false 9999999999999999289 (-17) := by
    simpa [signed] using hround
  exact Number.lt_of_le_of_lt (Number.float_le_float.mpr (Decimal.toBinary64_mono hle))
    hundred_between.1

theorem hundred_lt_percent {c : ℕ} {e : ℤ} {q : ℚ}
    (h : FloatFormat.decimals.Rounds q (c * 10 ^ e)) (hq : 100 * (1 + gap) ≤ q) :
    Number.float hundred < .float (Decimal.finite false c e).toBinary64 := by
  have hself := FloatFormat.decimals_self (-17) (by decide : 10000000000000000711 < 10 ^ 28)
  have hround := hself.mono h (le_trans (by norm_num [gap]) hq)
  have hle : Decimal.finite false 10000000000000000711 (-17) ≤ .finite false c e := by
    simpa [signed] using hround
  exact Number.lt_of_lt_of_le hundred_between.2
    (Number.float_le_float.mpr (Decimal.toBinary64_mono hle))

namespace Number

variable {k : ℕ} {n : Magnitude}

theorem position?_natCast (k : ℕ) : (int k).position? = some (.at (k * Binary64.unit : ℕ)) := by
  simp [position?, Position.ofInt]

theorem position?_finite (n : Magnitude) :
    (float (.finite false n)).position? = some (.at n.units) := by
  simp [position?, Binary64.position?, Binary64.signedUnits]

theorem natCast_le_finite : int k ≤ float (.finite false n) ↔ k * Binary64.unit ≤ n.units :=
  (le_iff_of_at (position?_natCast k) (position?_finite n)).trans Int.ofNat_le

theorem finite_le_natCast : float (.finite false n) ≤ int k ↔ n.units ≤ k * Binary64.unit :=
  (le_iff_of_at (position?_finite n) (position?_natCast k)).trans Int.ofNat_le

end Number

/-- The percent that a count is of a quota compares to 100 as the count compares to the quota. -/
theorem percentOf_count {k : ℕ} {q p : Binary64} (hk : k < 2 ^ 53)
    (h0 : .int 0 ≤ Number.float q) (hq : Number.float q ≤ .int (2 ^ 50 : ℕ))
    (h : percentOf (.int k) (.float q) = .ok p) :
    (Number.int k < .float q ∧ Number.float p < .float hundred) ∨
      ((Number.int k).position? = (Number.float q).position? ∧ p = hundred) ∨
      (Number.float q < .int k ∧ Number.float hundred < .float p) := by
  obtain ⟨hz, x, _, d, t, hx, hmul, ⟨⟩, hdiv, rfl⟩ := (percentOf_eq_ok rfl).mp h
  rcases Number.toBinary64_of_pos h0 hz rfl with rfl | ⟨n, hn, rfl⟩
  · cases hq
  have hcount : (Value.int k).IsCount k := ⟨_, rfl, rfl⟩
  obtain ⟨m, hm', hm⟩ := hcount.toBinary64_orZero hk
  cases hx.symm.trans hm'
  obtain ⟨_, c, e, hmul', hdiv', hround⟩ := Decimal.exists_percent_of_whole hm hk hn
  cases hmul.symm.trans hmul'
  cases hdiv.symm.trans hdiv'
  have hsize := Number.finite_le_natCast.mp hq
  have hpos : 0 < n.decimalUnits := by
    have hn' : (0 : ℚ) < n.units := by exact_mod_cast hn
    linarith [(Magnitude.decimalUnits_bounds hn).1]
  -- the shortest digits of the quota stay on its side of the count, and by more than the gap
  rcases Nat.lt_trichotomy (k * Binary64.unit) n.units with hlt | heq | hgt
  · have hside := Magnitude.lt_decimalUnits hn hsize hk hlt
    have hless : Number.int k < .float (.finite false n) :=
      ⟨Number.natCast_le_finite.mpr hlt.le, fun hge => hlt.not_ge (Number.finite_le_natCast.mp hge)⟩
    refine .inl ⟨hless, percent_lt_hundred hround ?_⟩
    rw [div_le_iff₀ hpos]
    linarith
  · refine .inr (.inl ⟨?_, percent_eq_hundred ?_⟩)
    · rw [Number.position?_natCast, Number.position?_finite, heq]
    · have hself := Decimal.decimalUnits_of_whole hn heq.symm hk
      rwa [mul_right_comm, ← hself, mul_div_cancel_left₀ _ hpos.ne'] at hround
  · have hside := Magnitude.decimalUnits_lt hn hsize hk hgt
    have hmore : Number.float (.finite false n) < .int k :=
      ⟨Number.finite_le_natCast.mpr hgt.le, fun hge => hgt.not_ge (Number.natCast_le_finite.mp hge)⟩
    refine .inr (.inr ⟨hmore, hundred_lt_percent hround ?_⟩)
    rw [le_div_iff₀ hpos]
    linarith

theorem hundred_le_self : Number.float hundred ≤ .float hundred :=
  Number.float_le_float.mpr (Binary64.le_refl hundred_ne_nan)

theorem compare_percentOf {k : ℕ} {q p : Binary64} (hk : k < 2 ^ 53)
    (h0 : .int 0 ≤ Number.float q) (hq : Number.float q ≤ .int (2 ^ 50 : ℕ))
    (h : percentOf (.int k) (.float q) = .ok p) :
    (Number.float p < .float hundred ↔ .int k < Number.float q) ∧
      (p = hundred ↔ (Number.int k).position? = (Number.float q).position?) ∧
      (Number.float hundred < .float p ↔ Number.float q < .int k) ∧
      (Number.float q ≤ .int k ↔ Number.float hundred ≤ .float p) := by
  rcases percentOf_count hk h0 hq h with ⟨hless, hp⟩ | ⟨hsame, rfl⟩ | ⟨hmore, hp⟩
  · refine ⟨iff_of_true hp hless, iff_of_false ?_ fun he => Number.not_lt_of_position_eq he hless,
      iff_of_false (Number.lt_asymm hp) (Number.lt_asymm hless), iff_of_false hless.2 hp.2⟩
    rintro rfl
    exact hp.2 hp.1
  · refine ⟨iff_of_false (Number.not_lt_of_position_eq rfl) (Number.not_lt_of_position_eq hsame),
      iff_of_true rfl hsame, iff_of_false (Number.not_lt_of_position_eq rfl)
        (Number.not_lt_of_position_eq hsame.symm), iff_of_true ?_ ?_⟩
    · exact (Number.le_congr rfl hsame).mpr (Number.le_refl_of_le h0)
    · exact hundred_le_self
  · refine ⟨iff_of_false (Number.lt_asymm hp) (Number.lt_asymm hmore), iff_of_false ?_ fun he =>
      Number.not_lt_of_position_eq he.symm hmore, iff_of_true hp hmore, iff_of_true hmore.1 hp.1⟩
    rintro rfl
    exact hp.2 hp.1

namespace Rule

variable {config : RuleConfig} {assignments : List Assignment} {rule : Rule}

/-- The percent that a share rule reports never contradicts its verdict: it is below, at or above
100 just if fewer, as many or more assignments are passed than the quota asks for. -/
theorem percent_agrees (hconfig : config.InRange)
    (h : build .share config assignments = .ok rule) (hfew : rule.basis.relevant.length < 2 ^ 50) :
    ∃ rounder required quota, rule.measure = .share rounder required quota ∧
      ∀ A r, (rule.check A).result = .ok r → ∃ k : ℕ, r.achievedPoints = .int k ∧
        (r.passed = true ↔ Number.float quota ≤ .int k) ∧
        (r.passed = true ↔ Number.float hundred ≤ .float r.achievedPercent) ∧
        ((Number.float quota).isZero = true → r.achievedPercent = hundred ∧ r.passed = true) ∧
        ((Number.float quota).isZero = false →
          (Number.float r.achievedPercent < .float hundred ↔ .int k < Number.float quota) ∧
          (r.achievedPercent = hundred ↔
            (Number.int k).position? = (Number.float quota).position?) ∧
          (Number.float hundred < .float r.achievedPercent ↔ Number.float quota < .int k)) := by
  obtain ⟨terms, _, rounder, quota, hterms, -, -, hbasis, hquota, hm⟩ := build_share_eq_ok h
  have hpercent := (isPercent_shareTerms hconfig hterms).1
  have h0 := Number.zero_le_float.mpr (quota_nonneg (Number.zero_le_float.mp hpercent.1) hquota)
  have hle := quota_le_count hpercent (hfew.trans (by norm_num)) hquota
  refine ⟨rounder, terms.requiredPercent, quota, hm, fun A r hr => ?_⟩
  obtain ⟨forms, p, hforms, hp, rfl⟩ := (verdict_share_eq_ok hm).mp (check_eq_ok.mp hr).2
  have hcount : forms.length < 2 ^ 53 := by
    have := length_passedAssignments_le hforms
    have := RuleBasis.length_maxPoints_le hbasis
    omega
  refine ⟨forms.length, rfl, Iff.rfl, ?_⟩
  rw [percentOfQuota] at hp
  cases hz : (Number.float quota).isZero with
  | true =>
    obtain rfl : hundred = p := Except.ok.inj (by rwa [if_pos hz] at hp)
    have hreached : Number.float quota ≤ .int forms.length := by
      have hplace : (Number.int 0).position? = (Number.float quota).position? :=
        Number.position?_zero.trans (Number.isZero_iff.mp hz).symm
      exact (Number.le_congr hplace rfl).mp (Number.int_le_int.mpr (Int.natCast_nonneg _))
    exact ⟨iff_of_true hreached hundred_le_self, fun _ => ⟨rfl, hreached⟩, nofun⟩
  | false =>
    rw [hz, if_neg Bool.false_ne_true] at hp
    have hlimit : Number.float quota ≤ .int (2 ^ 50 : ℕ) :=
      Number.le_trans hle (Number.int_le_int.mpr (by exact_mod_cast hfew.le))
    obtain ⟨hless, hsame, hmore, hreached⟩ := compare_percentOf hcount h0 hlimit hp
    exact ⟨hreached, nofun, fun _ => ⟨hless, hsame, hmore⟩⟩

end Rule

/-- Terms that ask for the last double below 100 as the percent of assignments, and do not round. -/
def Sample.nearlyAll : ShareTerms :=
  ⟨.ofDecimal false 9999999999999999 (-14), ⟨.none, 0⟩, .ofDecimal false 50 0, ⟨.none, 0⟩⟩

/-- One passed assignment of one is more than that quota, and reported as more than 100 percent. -/
theorem Rule.percent_agrees_next_double :
    ∃ rule rounder required quota r,
      build .share (.share Sample.header Sample.nearlyAll) (Sample.assignments.take 1) =
        .ok rule ∧
      rule.measure = .share rounder required quota ∧
      (rule.check [Sample.assessment "u" "a1" (.int 10)]).result = .ok r ∧
      r.achievedPoints = .int 1 ∧ r.passed = true ∧ Number.float quota < .int 1 ∧
      Number.float hundred < .float r.achievedPercent := by
  have hruns : (do
      let rule ← build .share (.share Sample.header Sample.nearlyAll) (Sample.assignments.take 1)
      let r ← (rule.check [Sample.assessment "u" "a1" (.int 10)]).result
      return (rule, r)).toOption.any (fun (run : Rule × CheckResult) =>
        run.1.basis.relevant.length = 1 ∧
          run.2.achievedPoints.number? = some (Number.int 1)) = true := by decide +kernel
  obtain ⟨_, hruns, hfacts⟩ := exists_of_any hruns
  obtain ⟨rule, hrule, hruns⟩ := bind_eq_ok.mp hruns
  obtain ⟨r, hr, ⟨⟩⟩ := bind_eq_ok.mp hruns
  obtain ⟨hone, hpoints⟩ : rule.basis.relevant.length = 1 ∧ _ := of_decide_eq_true hfacts
  have hconfig : RuleConfig.InRange (.share Sample.header Sample.nearlyAll) := by
    refine ⟨⟨?_, ?_⟩, ?_, ?_⟩ <;> rw [Number.le_iff] <;> decide +kernel
  obtain ⟨rounder, required, quota, hm, hagrees⟩ := percent_agrees hconfig hrule (by omega)
  obtain ⟨k, hk, hreached, -, -, hnonzero⟩ := hagrees _ r hr
  obtain rfl : k = 1 := by
    rw [hk] at hpoints
    exact Int.ofNat.inj (Number.int.inj (Option.some.inj hpoints))
  obtain ⟨_, _, _, q, ⟨⟩, ⟨⟩, -, -, hquota, hm'⟩ := build_share_eq_ok hrule
  obtain rfl : quota = q := (Measure.share.inj (hm.symm.trans hm')).2.2
  have hshare : (Rule.quota .unchanged 1 Sample.nearlyAll.passedPercent).toOption.any
      (· = .ofDecimal false 9999999999999999 (-16)) = true := by decide +kernel
  obtain ⟨_, hshare, hvalue⟩ := exists_of_any hshare
  rw [hone] at hquota
  cases hquota.symm.trans hshare
  obtain rfl := of_decide_eq_true hvalue
  have hless : Number.float (.ofDecimal false 9999999999999999 (-16)) < .int 1 := by
    refine ⟨?_, ?_⟩ <;> rw [Number.le_iff] <;> decide +kernel
  have hzero : (Number.float (.ofDecimal false 9999999999999999 (-16))).isZero = false := by
    decide +kernel
  exact ⟨rule, rounder, required, _, r, hrule, hm, hr, hk, hreached.mpr hless.1, hless,
    (hnonzero hzero).2.2.mpr hless⟩

end ExamAdmission
