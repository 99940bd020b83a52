import ExamAdmission.Config.RuleConfig
import ExamAdmission.Proofs.Rounding.WholePoints
import ExamAdmission.Proofs.Rule.Counting

/-! Checks of whole points. They are decided as by exact arithmetic, when the required percent is
taken to be the decimal that it is written as. -/

namespace ExamAdmission

attribute [local irreducible] rangeEnd Binary64.unit

/-- The exact percent, in so many decimals. -/
def Bearing.exactPercent (bearing : Bearing) (a r n : ℕ) : ℚ :=
  bearing.whole (100 * a / r * 10 ^ n) / 10 ^ n

theorem Magnitude.value_of_rounds {m : Magnitude} {k n : ℕ} (hk : k ≤ 10 ^ 15) (hn : n ≤ 12)
    (h : FloatFormat.units.Rounds (k / 10 ^ n * Binary64.unit) m.units) :
    (Decimal.ofBinary64 (.finite false m)).value = k / 10 ^ n := by
  have hdigits : FifteenDigits (k / 10 ^ n) := by
    have hfew := FifteenDigits.of_le hk (-n)
    rwa [zpow_neg, zpow_natCast, ← div_eq_mul_inv] at hfew
  have hsize : (k : ℚ) / 10 ^ n = 0 ∨ (10 : ℚ) ^ (-250 : ℤ) ≤ k / 10 ^ n := by
    rcases Nat.eq_zero_or_pos k with rfl | hpos
    · exact .inl (by simp)
    · have hone : (1 : ℚ) ≤ k := by exact_mod_cast hpos
      have hplace : (10 : ℚ) ^ (-250 : ℤ) ≤ 1 / 10 ^ n := by
        rw [one_div, ← zpow_natCast, ← zpow_neg]
        exact ten_zpow_le (by omega)
      exact .inr (hplace.trans (div_le_div_of_nonneg_right hone (by positivity)))
  have hnear : Binary64.Nearest false (k / 10 ^ n * Binary64.unit) (.finite false m) := .within m h
  rcases hdigits.decimal_of_nearest hsize hnear with hinf | ⟨c, e, hdec, hvalue⟩
  · cases hinf
  · rw [hdec, Decimal.value, hvalue]
    rfl

/-- The percent of whole points is rounded to the double next to the exact percent, which compares
to the required one as this double does. -/
theorem Value.IsCount.compare_percent {v w : Value} {a r n : ℕ} (bearing : Bearing)
    (hv : v.IsCount a) (hw : w.IsCount r) (ha : 0 < a) (hr : 0 < r) (hr' : r ≤ 10 ^ 15)
    (hn : a * 10 ^ n ≤ 10 ^ 12) :
    ∃ p y, percentOf v w = .ok p ∧ (Rounder.toPlaces bearing n).round p = .ok y ∧
      y.IsNearest (bearing.exactPercent a r n) ∧
      ∀ required : Binary64, required.IsFinite → (Number.float required).le (.float y) =
        decide ((Decimal.ofBinary64 required).value ≤ bearing.exactPercent a r n) := by
  obtain ⟨p, m, k, hp, hround, hk, hfew, hunits⟩ :=
    hv.exists_round_percent bearing hw ha hr hr' hn
  have hplaces : n ≤ 12 := by
    have hpow : 10 ^ n ≤ 10 ^ 12 := (Nat.le_mul_of_pos_left _ ha).trans hn
    exact (Nat.pow_le_pow_iff_right (by decide)).mp hpow
  have hpercent : bearing.exactPercent a r n = k / 10 ^ n := by
    have hwhole := Bearing.whole_signed (a := false) (by positivity) hk
    simp only [signed, Bool.false_eq_true, if_false] at hwhole
    rw [Bearing.exactPercent, hwhole]
  rw [hpercent]
  refine ⟨p, _, hp, hround, ⟨false, k / 10 ^ n, by positivity, rfl, .within m hunits⟩,
    fun required hfinite => ?_⟩
  rw [Bool.eq_iff_iff, decide_eq_true_iff, ← Magnitude.value_of_rounds (by omega) hplaces hunits]
  exact Binary64.le_iff_value hfinite ⟨false, m, rfl⟩

/-- Rounded percents of whole points are exact, and so are all decisions by them: whether an
assignment is passed, and whether a participant passes by all points. -/
theorem whole_points_exact (bearing : Bearing) {a r n : ℕ} (ha : 1 ≤ a) (hr : 1 ≤ r)
    (hr' : r ≤ 10 ^ 15) (hn : a * 10 ^ n ≤ 10 ^ 12) :
    ∃ rounder, rounderOf (.text bearing.type.name) (.int n) = .ok rounder ∧
      RoundingPolicy.rounder ⟨bearing.type, n⟩ = .ok rounder ∧
      ∀ v w, v.IsCount a → w.IsCount r →
        (∃ p y, percentOf v w = .ok p ∧ rounder.round p = .ok y ∧
          y.IsNearest (bearing.exactPercent a r n)) ∧
        ∀ required : Binary64, required.IsFinite →
          (∀ (table : Table Value) key, table.find? key = some v →
            passesAssignment rounder required table key w = .ok
              (decide ((Decimal.ofBinary64 required).value ≤ bearing.exactPercent a r n))) ∧
          ∀ (rule : Rule) A table sum total, rule.measure = .overall rounder required total →
            (rule.achieved A).result = .ok table → Value.sum table.values = .ok sum →
            sum.toValue = v → total.toValue = w →
            ∃ result, (rule.check A).result = .ok result ∧
              result.achievedPercent.IsNearest (bearing.exactPercent a r n) ∧
              result.passed =
                decide ((Decimal.ofBinary64 required).value ≤ bearing.exactPercent a r n) := by
  have hrounder : bearing.rounder n = .ok (.toPlaces bearing n) := by
    have hplaces : 10 ^ n ≤ 10 ^ 12 := (Nat.le_mul_of_pos_left _ ha).trans hn
    have hfew : n ≤ 12 := (Nat.pow_le_pow_iff_right (by decide)).mp hplaces
    exact Bearing.rounder_eq_ok.mpr ⟨hfew.trans (by decide), rfl⟩
  refine ⟨.toPlaces bearing n, bearing.rounderOf_type n ▸ hrounder, ?_, fun v w hv hw => ?_⟩
  · cases bearing <;> exact hrounder
  obtain ⟨p, y, hp, hy, hnear, hcompare⟩ := hv.compare_percent bearing hw ha hr hr' hn
  refine ⟨⟨p, y, hp, hy, hnear⟩, fun required hfinite => ⟨fun table key hpoints => ?_,
    fun rule A table sum total hm htable hsum hachieved htotal => ?_⟩⟩
  · rw [← hcompare required hfinite, passesAssignment_eq_ok, hpoints]
    exact ⟨p, y, hp, hy, rfl⟩
  · have hzero := hw.isZero_eq_false hr (htotal ▸ Value.number?_toValue total)
    have hpercent : percentOfTotal (.toPlaces bearing n) sum total = .ok y := by
      rw [percentOfTotal, hzero, hachieved, htotal, hp]
      exact hy
    have hverdict := (Rule.verdict_overall_eq_ok hm).mpr ⟨sum, y, hsum, hpercent, rfl⟩
    refine ⟨rule.result sum.toValue y _, ?_, hnear, hcompare required hfinite⟩
    unfold Rule.check
    rw [hm]
    exact Run.bind_result_eq_ok.mpr ⟨table, htable, hverdict⟩

/-- An overall rule over one homework of three points. -/
def Sample.threePoints (rounder : Rounder) (required : Binary64) : Rule :=
  ⟨⟨overallType, "HOMEWORK", [.text "a1"], [], [(.ofText "a1", .int 3)]⟩,
    .overall rounder required (.int 3)⟩

/-- Two of three points are 66.67 percent and no less, when percents are rounded up. -/
theorem whole_points_exact_two_thirds :
    ∃ rounder p y result, rounderOf (.text "up") (.int 2) = .ok rounder ∧
      percentOf (.int 2) (.float (.ofDecimal false 3 0)) = .ok p ∧ rounder.round p = .ok y ∧
      y.IsNearest (6667 / 100) ∧
      passesAssignment rounder (.ofDecimal false 6667 (-2)) [(.ofText "a1", .int 2)] (.text "a1")
        (.float (.ofDecimal false 3 0)) = .ok true ∧
      ((Sample.threePoints rounder (.ofDecimal false 6667 (-2))).check
        [Sample.assessment "u" "a1" (.int 2)]).result = .ok result ∧ result.passed = true := by
  obtain ⟨rounder, hr, -, hall⟩ := whole_points_exact .ceiling (a := 2) (r := 3) (n := 2)
    (by decide) (by decide) (by decide) (by decide)
  have hpercent : Bearing.ceiling.exactPercent 2 3 2 = 6667 / 100 := by
    norm_num [Bearing.exactPercent, Bearing.whole]
  have hrequired : Decimal.ofBinary64 (.ofDecimal false 6667 (-2)) = .finite false 6667 (-2) := by
    decide +kernel
  have hfinite : (Binary64.ofDecimal false 6667 (-2)).IsFinite :=
    ⟨false, Decimal.eq_finite_of_ofBinary64 hrequired⟩
  have hreached : decide ((Decimal.ofBinary64 (.ofDecimal false 6667 (-2))).value ≤
      Bearing.ceiling.exactPercent 2 3 2) = true := by
    rw [hrequired, hpercent]
    norm_num [Decimal.value, signed]
  have htwo : (Value.int 2).IsCount 2 := ⟨_, rfl, rfl⟩
  have hthree : (Value.float (.ofDecimal false 3 0)).IsCount 3 := ⟨_, rfl, by decide +kernel⟩
  obtain ⟨⟨p, y, hp, hy, hnear⟩, hdecide⟩ := hall _ _ htwo hthree
  have hpasses := (hdecide _ hfinite).1 [(.ofText "a1", .int 2)] (.text "a1") rfl
  have hoverall := ((hall _ _ htwo ⟨_, rfl, rfl⟩).2 _ hfinite).2
    (Sample.threePoints rounder (.ofDecimal false 6667 (-2)))
    [Sample.assessment "u" "a1" (.int 2)] [(.ofText "a1", .int 2)] (.int 2) (.int 3) rfl
    rfl rfl rfl rfl
  obtain ⟨result, hresult, -, hpassed⟩ := hoverall
  rw [hreached] at hpasses hpassed
  exact ⟨rounder, p, y, result, hr, hp, hy, hpercent ▸ hnear, hpasses, hresult, hpassed⟩

end ExamAdmission
