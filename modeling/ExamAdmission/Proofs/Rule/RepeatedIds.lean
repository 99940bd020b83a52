import ExamAdmission.Proofs.Rule.Building
import ExamAdmission.Proofs.Rule.Counting
import ExamAdmission.Proofs.Rule.Quota

/-! Identifiers that a course repeats. A quota is a share of all assignments of the type, but the
passed ones are counted once for each identifier, so that a quota can be out of reach. -/

namespace ExamAdmission

attribute [local irreducible] rangeEnd Binary64.unit

theorem isPercent_hundred : hundred.IsPercent := by
  constructor
  · exact (Number.le_congr rfl position?_hundred).mpr (Number.int_le_int.mpr (by norm_num))
  · exact (Number.le_congr position?_hundred rfl).mpr (Number.int_le_int.mpr le_rfl)

theorem exists_fractionOfHundred :
    ∃ q, fractionOfPercent hundred = .ok q ∧ Decimal.ofBinary64 q = .finite false 1 0 := by
  have h : (fractionOfPercent hundred).toOption.any
      (fun q => Decimal.ofBinary64 q = .finite false 1 0) = true := by decide +kernel
  obtain ⟨q, hq, hdecimal⟩ := exists_of_any h
  exact ⟨q, hq, of_decide_eq_true hdecimal⟩

namespace Rule

variable {rounder : Rounder} {count : ℕ} {x : Binary64}

/-- A quota of 100 percent is not below the number of assignments, however it is rounded. -/
theorem count_le_quota (hcount : count < 2 ^ 53) (h : quota rounder count hundred = .ok x) :
    .int count ≤ Number.float x := by
  obtain ⟨m, hm⟩ := Magnitude.exists_of_le hcount.le isStep_unit
  have hwhole := Binary64.isWhole_of_units hm hcount
  have hplace : (Number.int count).position? = (Number.float (.finite false m)).position? := by
    simp [Number.position?, Binary64.position?, Binary64.signedUnits, Position.ofInt, hm]
  obtain ⟨part, hpart, hone⟩ := exists_fractionOfHundred
  obtain ⟨c, k, hmul, hround⟩ := (Decimal.scales_mul_count count).finite false 1 0
  have hexact : (c : ℚ) * 10 ^ k = count :=
    FloatFormat.Rounds.eq_natCast (by simpa using hround) (hcount.trans (by norm_num))
  have hshare : quota .unchanged count hundred = .ok (Decimal.finite false c k).toBinary64 := by
    rw [← hone] at hmul
    exact bind_eq_ok.mpr ⟨part, hpart, bind_eq_ok.mpr ⟨_,
      bind_eq_ok.mpr ⟨_, liftArithmetic_eq_ok.mpr hmul, rfl⟩, rfl⟩⟩
  have hle : Decimal.ofBinary64 (.finite false m) ≤ .finite false c k :=
    Decimal.le_trans hwhole.le_decimal (by simp [signed, hexact])
  have hback := Decimal.toBinary64_mono hle
  rw [Decimal.toBinary64_ofBinary64] at hback
  rw [quota_of_unchanged hshare] at h
  exact (Number.le_congr hplace rfl).mpr
    (Number.float_le_float.mpr (Rounder.whole_le_round hwhole hback h))

variable {rule : Rule} {config : RuleConfig} {assignments : List Assignment}

theorem passed_le_maxPoints {required quota : Binary64} {A : List Assessment} {r : CheckResult}
    (hm : rule.measure = .share rounder required quota) (hr : (rule.check A).result = .ok r)
    (hpassed : r.passed = true) : Number.float quota ≤ .int rule.basis.maxPoints.length := by
  obtain ⟨forms, _, hforms, -, rfl⟩ := (verdict_share_eq_ok hm).mp (check_eq_ok.mp hr).2
  exact Number.le_trans hpassed
    (Number.int_le_int.mpr (Int.ofNat_le.mpr (length_passedAssignments_le hforms)))

/-- The quota of a share rule is never above the number of assignments of its type. Where each of
them has an identifier of its own it is within reach; where one is repeated and all have to be
passed, it is not, and nobody passes the rule. -/
theorem quota_within_reach (hconfig : config.InRange)
    (h : build .share config assignments = .ok rule) (hfew : rule.basis.relevant.length < 2 ^ 53) :
    ∃ terms rounder quota, shareTerms config = .ok terms ∧
      rule.measure = .share rounder terms.requiredPercent quota ∧
      .int 0 ≤ Number.float quota ∧
      Number.float quota ≤ .int rule.basis.relevant.length ∧
      rule.basis.maxPoints.length ≤ rule.basis.relevant.length ∧
      ((rule.basis.relevant.map fun a => a.id.key?).Nodup →
        Number.float quota ≤ .int rule.basis.maxPoints.length) ∧
      (terms.passedPercent = hundred → ¬ (rule.basis.relevant.map fun a => a.id.key?).Nodup →
        ¬ Number.float quota ≤ .int rule.basis.maxPoints.length ∧
        ∀ A r, (rule.check A).result = .ok r → r.passed = false) := by
  obtain ⟨terms, _, rounder, quota, hterms, -, -, hbasis, hquota, hm⟩ := build_share_eq_ok h
  have hpercent := (isPercent_shareTerms hconfig hterms).1
  have hnonneg := quota_nonneg (Number.zero_le_float.mp hpercent.1) hquota
  have hle := quota_le_count hpercent hfew hquota
  have hlength := RuleBasis.length_maxPoints_le hbasis
  have hdistinct := RuleBasis.length_maxPoints_eq_iff hbasis
  refine ⟨terms, rounder, quota, hterms, hm, Number.zero_le_float.mpr hnonneg, hle, hlength,
    fun hnodup => ?_, fun hall hrepeated => ?_⟩
  · rw [hdistinct.mpr hnodup]
    exact hle
  · rw [hall] at hquota
    have hreach : ¬ Number.float quota ≤ .int rule.basis.maxPoints.length := by
      intro hreach
      have hcount := Number.int_le_int.mp (Number.le_trans (count_le_quota hfew hquota) hreach)
      exact hrepeated (hdistinct.mp (Nat.le_antisymm hlength (Int.ofNat_le.mp hcount)))
    refine ⟨hreach, fun A r hr => ?_⟩
    by_contra hpassed
    exact hreach (passed_le_maxPoints hm hr (Bool.not_eq_false _ ▸ hpassed))

end Rule

/-- A course that lists its only homework twice. -/
def Sample.doubled : List Assignment :=
  [⟨.text "a1", .text "c", .text "HOMEWORK", .int 10⟩,
   ⟨.text "a1", .text "c", .text "HOMEWORK", .int 10⟩]

theorem Rule.quota_within_reach_doubled :
    ∃ rule r, build .share (.share Sample.header (Sample.terms 100 .normal .none))
        Sample.doubled = .ok rule ∧
      (rule.check [Sample.assessment "u" "a1" (.int 10)]).result = .ok r ∧
      r.achievedPoints = .int 1 ∧ rule.basis.maxPoints.length = 1 ∧ r.passed = false := by
  have hruns : (do
      let rule ← build .share (.share Sample.header (Sample.terms 100 .normal .none)) Sample.doubled
      let r ← (rule.check [Sample.assessment "u" "a1" (.int 10)]).result
      return (rule, r)).toOption.any (fun (run : Rule × CheckResult) =>
        run.1.basis.relevant.length = 2 ∧ run.1.basis.maxPoints.length = 1 ∧
          run.2.achievedPoints.number? = some (Number.int 1)) = true := by decide +kernel
  obtain ⟨_, hruns, hsizes⟩ := exists_of_any hruns
  obtain ⟨rule, hrule, hruns⟩ := bind_eq_ok.mp hruns
  obtain ⟨r, hr, ⟨⟩⟩ := bind_eq_ok.mp hruns
  obtain ⟨hrelevant, hentries, hpoints⟩ :
      rule.basis.relevant.length = 2 ∧ rule.basis.maxPoints.length = 1 ∧ _ :=
    of_decide_eq_true hsizes
  have hconfig : RuleConfig.InRange (.share Sample.header (Sample.terms 100 .normal .none)) :=
    ⟨isPercent_hundred, isPercent_hundred⟩
  have hfew : rule.basis.relevant.length < 2 ^ 53 := by omega
  obtain ⟨_, _, _, ⟨⟩, hm, -, -, -, -, hreach⟩ := quota_within_reach hconfig hrule hfew
  obtain ⟨-, -, -, -, ⟨⟩, -, -, hbasis, -, -⟩ := build_share_eq_ok hrule
  have hrepeated : ¬ (rule.basis.relevant.map fun a => a.id.key?).Nodup := by
    rw [← RuleBasis.length_maxPoints_eq_iff hbasis, hrelevant, hentries]
    decide
  refine ⟨rule, r, hrule, hr, ?_, hentries, (hreach rfl hrepeated).2 _ r hr⟩
  obtain ⟨forms, _, -, -, rfl⟩ := (verdict_share_eq_ok hm).mp (check_eq_ok.mp hr).2
  exact congrArg Value.int (Number.int.inj (Option.some.inj hpoints))

end ExamAdmission
