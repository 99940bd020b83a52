import ExamAdmission.Proofs.Config.Places
import ExamAdmission.Proofs.Rule.Checkable
import ExamAdmission.Proofs.Rule.OverallChecks
import ExamAdmission.Proofs.Rule.RepeatedIds

/-! Courses with a single assignment of a type. To pass all of them is to pass this one, and its
points are the total, so that rules of both kinds agree. -/

namespace ExamAdmission

attribute [local irreducible] rangeEnd Binary64.unit

/-- Points as an assessment has them: none yet, or a number. -/
def Value.IsMark (v : Value) : Prop := v = .null ∨ ∃ a, v.number? = some a

theorem Value.IsMark.number?_orZeroPoints {v : Value} (h : v.IsMark) :
    ∃ a, v.orZeroPoints.number? = some a := by
  unfold orZeroPoints
  split
  · rename_i hholds
    rcases h with rfl | hnumber
    · cases hholds
    · exact hnumber
  · exact ⟨_, rfl⟩

theorem percentOf_of_places {v w required required' : Value} {a b r r' : Number}
    (hv : v.number? = some a) (hw : w.number? = some b) (hplace : a.position? = b.position?)
    (hr : required.number? = some r) (hr' : required'.number? = some r')
    (hplace' : r.position? = r'.position?) (hz : r.isZero = false) :
    percentOf v required = percentOf w required' := by
  have hz' : r'.isZero = false := by rw [← hz, Number.isZero, Number.isZero, hplace']
  have hrequired : required.toBinary64 = required'.toBinary64 := by
    rw [Value.toBinary64_of_number? hr, Value.toBinary64_of_number? hr',
      Number.toBinary64_congr hplace' hz]
  rw [percentOf_of_number? hr, percentOf_of_number? hr', hz, hz']
  simp only [Value.toDecimal, Value.toBinary64_orZero_congr hv hw hplace, hrequired,
    Bool.false_eq_true, if_false]

namespace Rule

variable {s o : Rule} {A : List Assessment}

theorem counted_agrees (hknown : s.basis.known = o.basis.known)
    (hmax : s.basis.maxPoints = o.basis.maxPoints) : (s.counted A).Agrees (o.counted A) := by
  induction A with
  | nil => exact .refl _
  | cons a rest ih =>
    unfold counted
    rw [← hknown, ← hmax]
    split
    · exact ih
    refine .bind (.refl _) fun label => ?_
    split
    · exact .bind ⟨rfl, rfl⟩ fun _ => ih
    · exact .bind ih fun _ => .refl _

theorem achieved_agrees (hknown : s.basis.known = o.basis.known)
    (hmax : s.basis.maxPoints = o.basis.maxPoints) : (s.achieved A).Agrees (o.achieved A) :=
  .bind (counted_agrees hknown hmax) fun _ => .refl _

section Verdict

variable {rounder : Rounder} {required quota : Binary64} {total : Number} {label : Label}
  {points : Value} {table : Table Value}

theorem verdict_share_single (hm : s.measure = .share rounder required quota)
    (hmax : s.basis.maxPoints = [(label, points)]) (hle : Number.float quota ≤ .int 1)
    (hge : .int 1 ≤ Number.float quota) : (s.verdict table).map CheckResult.passed =
      passesAssignment rounder required table label.key points := by
  have hmissed : (Number.float quota).le (.int 0) = false :=
    Bool.eq_false_iff.mpr fun h => absurd (Number.int_le_int.mp (Number.le_trans hge h)) (by decide)
  have hnonneg : .zero false ≤ quota :=
    Number.zero_le_float.mp (Number.le_trans (Number.int_le_int.mpr (by decide)) hge)
  have hpercent : ∀ count ≤ 1, ∃ p, percentOfQuota count quota = .ok p := fun count hcount =>
    exists_percentOfQuota (hcount.trans (by norm_num)) hnonneg
  simp only [verdict, hm, hmax, passedAssignments, bind, Except.bind]
  cases passesAssignment rounder required table label.key points with
  | error e => rfl
  | ok passes =>
    cases passes with
    | true =>
      obtain ⟨p, hp⟩ := hpercent 1 le_rfl
      have hmet : (Number.float quota).le (.int 1) = true := hle
      simp [hp, hmet, result, Except.map, pure, Except.pure]
    | false =>
      obtain ⟨p, hp⟩ := hpercent 0 (by decide)
      simp [hp, hmissed, result, Except.map, pure, Except.pure]

theorem verdict_overall_single {a : Number} (hm : o.measure = .overall rounder required total)
    (hpoints : points.number? = some a) (hplace : total.position? = a.position?)
    (hz : a.isZero = false) (hn : table.keys.Nodup) (hkeys : ∀ key ∈ table.keys, key = label.key)
    (hnumbers : ∀ v ∈ table.values, ∃ b, v.number? = some b) :
    (o.verdict table).map CheckResult.passed =
      passesAssignment rounder required table label.key points := by
  have hvalues := Table.values_of_keys hn hkeys
  obtain ⟨b, sum, hsum, hb, hsumplace⟩ := Value.exists_sum_toList (table.find? label.key)
    fun v hv => hnumbers v (Table.mem_values_of_find? hv)
  have htotal : total.isZero = false := by rw [← hz, Number.isZero, Number.isZero, hplace]
  have htotalnumber : total.toValue.number? = some total := by cases total <;> rfl
  have hsumnumber : sum.toValue.number? = some sum := by cases sum <;> rfl
  have hpercent : percentOf sum.toValue total.toValue =
      percentOf ((table.find? label.key).getD (.float (.zero false))) points :=
    percentOf_of_places hsumnumber hb hsumplace htotalnumber hpoints hplace htotal
  simp only [verdict, hm, hvalues, hsum, percentOfTotal, htotal, hpercent, passesAssignment, bind,
    Except.bind, Bool.false_eq_true, if_false]
  cases percentOf ((table.find? label.key).getD (.float (.zero false))) points with
  | error e => rfl
  | ok p => cases hround : rounder.round p <;> simp [hround, Except.map, pure, Except.pure, result]

theorem exists_number?_contributions (hmarks : ∀ b ∈ A, b.achievedPoints.IsMark) {v : Value}
    (hv : v ∈ (Table.ofList (A.filterMap o.contribution?)).values) : ∃ a, v.number? = some a := by
  obtain ⟨e, he, rfl⟩ := List.mem_map.mp (Table.mem_values_ofList hv)
  obtain ⟨b, hb, hcontribution⟩ := List.mem_filterMap.mp he
  obtain ⟨_, -, rfl⟩ := Option.map_eq_some_iff.mp hcontribution
  exact (hmarks b hb).number?_orZeroPoints

theorem check_single {a : Number} (hs : s.measure = .share rounder required quota)
    (ho : o.measure = .overall rounder required total) (hknown : s.basis.known = o.basis.known)
    (hmax : s.basis.maxPoints = [(label, points)]) (hmax' : o.basis.maxPoints = [(label, points)])
    (hle : Number.float quota ≤ .int 1) (hge : .int 1 ≤ Number.float quota)
    (hpoints : points.number? = some a) (hplace : total.position? = a.position?)
    (hz : a.isZero = false) (hmarks : ∀ b ∈ A, b.achievedPoints.IsMark) :
    (s.check A).result.map CheckResult.passed = (o.check A).result.map CheckResult.passed ∧
      (s.check A).warnings = (o.check A).warnings := by
  have hagrees := achieved_agrees (A := A) hknown (hmax.trans hmax'.symm)
  rw [check_of_measured (by rw [hs]; exact nofun), check_of_measured (by rw [ho]; exact nofun),
    Run.bind_of_warnings, Run.bind_of_warnings, Run.bind_of_result, Run.bind_of_result, hagrees.1]
  refine ⟨?_, hagrees.2⟩
  cases hachieved : (o.achieved A).result with
  | error e => rfl
  | ok table =>
    obtain ⟨_, hentries, ⟨⟩⟩ := Run.bind_result_eq_ok.mp hachieved
    obtain ⟨-, rfl⟩ := counted_eq_ok.mp hentries
    have hkeys : ∀ key ∈ (Table.ofList (A.filterMap o.contribution?)).keys, key = label.key := by
      intro key hkey
      have hmem := mem_maxPoints_of_contributions hkey
      rw [hmax'] at hmem
      exact List.mem_singleton.mp hmem
    exact (verdict_share_single hs hmax hle hge).trans
      (verdict_overall_single ho hpoints hplace hz (Table.nodup_keys_ofList _) hkeys
        fun _ => exists_number?_contributions hmarks).symm

end Verdict

section Build

variable {header header' : RuleHeader} {passedRounding achievedRounding : RoundingPolicy}
  {required : Binary64} {assignments : List Assignment} {a : Assignment}

/-- All of a single assignment is this one, however it is rounded to up to 27 decimals. -/
theorem exists_quota_single (hplaces : passedRounding.UpTo 27) :
    ∃ rounder q, passedRounding.rounder = .ok rounder ∧ quota rounder 1 hundred = .ok q ∧
      Number.float q ≤ .int 1 ∧ .int 1 ≤ Number.float q := by
  obtain ⟨rounder, hrounder⟩ :=
    RoundingPolicy.exists_rounder_iff.mpr (hplaces.mono (by decide : 27 ≤ mostDecimals))
  obtain ⟨x, hx, hone⟩ := exists_of_any (x := quota .unchanged 1 hundred)
    (p := fun x => Decimal.ofBinary64 x = .finite false 1 0) (by decide +kernel)
  have hone := of_decide_eq_true hone
  obtain ⟨q, hq⟩ : ∃ q, rounder.round x = .ok q := by
    rcases RoundingPolicy.rounder_eq_ok hrounder with ⟨-, rfl⟩ | ⟨hnone, bearing, rfl⟩
    · exact ⟨x, rfl⟩
    · have hfew : 1 * 10 ^ passedRounding.decimals < 10 ^ 28 := by
        rw [one_mul]
        exact Nat.pow_lt_pow_right (by norm_num) (Nat.lt_succ_of_le (hplaces.resolve_left hnone))
      exact Rounder.exists_round_iff.mpr
        (Rounder.not_exceeds_of_le (by simp [hone, signed]) (by simp [hone]) hfew)
  have hquota : quota rounder 1 hundred = .ok q := (quota_of_unchanged hx).trans hq
  exact ⟨rounder, q, hrounder, hquota, quota_le_count isPercent_hundred (by norm_num) hquota,
    count_le_quota (by norm_num) hquota⟩

theorem basis_single (hsingle : assignmentsOfType header.assignmentType assignments = [a])
    (hworth : a.points.IsWorth) : RuleBasis.build header assignments = (do
      let labels ← assignments.mapM fun a => a.id.label
      let label ← a.id.label
      return ⟨header.ruleType, header.assignmentType, labels.map Label.key, [a],
        [(label, a.points)]⟩) := by
  simp only [RuleBasis.build, filter_isOfType, hsingle, idsWithoutPoints, hworth.lacksPoints, List.isEmpty_cons,
    Bool.false_and, Bool.false_eq_true, if_false, List.mapM_cons, List.mapM_nil, bind, Except.bind,
    pure, Except.pure]
  cases assignments.mapM fun a => a.id.label with
  | error e => rfl
  | ok labels => cases a.id.label <;> rfl

/-- Both rules are refused for the same reason, or both are built on the same assignments. -/
theorem builds_single (htype : header'.assignmentType = header.assignmentType)
    (hplaces : passedRounding.UpTo 27)
    (hsingle : assignmentsOfType header.assignmentType assignments = [a])
    (hworth : a.points.IsWorth) :
    (∃ e, build .share (.share header ⟨hundred, passedRounding, required, achievedRounding⟩)
          assignments = .error e ∧
        build .overall (.overall header' ⟨required, achievedRounding⟩) assignments = .error e) ∨
      ∃ rounder known label q total n,
        build .share (.share header ⟨hundred, passedRounding, required, achievedRounding⟩)
          assignments = .ok ⟨⟨header.ruleType, header.assignmentType, known, [a],
            [(label, a.points)]⟩, .share rounder required q⟩ ∧
        build .overall (.overall header' ⟨required, achievedRounding⟩) assignments =
          .ok ⟨⟨header'.ruleType, header'.assignmentType, known, [a], [(label, a.points)]⟩,
            .overall rounder required total⟩ ∧
        (Number.float q ≤ .int 1 ∧ .int 1 ≤ Number.float q) ∧
        a.points.number? = some n ∧ total.position? = n.position? ∧ n.isZero = false := by
  obtain ⟨passedRounder, q, hpassed, hq, hone⟩ := exists_quota_single hplaces
  obtain ⟨n, hn, -, -, hz⟩ := id hworth
  obtain ⟨m, total, htotal, hm, hplace⟩ := Value.exists_sum_toList (some a.points)
    fun _ hv => ⟨n, Option.some.inj hv ▸ hn⟩
  cases hn.symm.trans hm
  rw [Option.toList_some] at htotal
  have hbasis := basis_single hsingle hworth
  have hsingle' : assignmentsOfType header'.assignmentType assignments = [a] := by
    rw [htype, hsingle]
  have hbasis' := basis_single hsingle' hworth
  simp only [build, shareTerms, overallTerms, RuleConfig.header, hpassed, hbasis, hbasis', bind,
    Except.bind, pure, Except.pure]
  cases achievedRounding.rounder with
  | error e => exact .inl ⟨e, rfl, rfl⟩
  | ok rounder =>
    cases assignments.mapM fun a => a.id.label with
    | error e => exact .inl ⟨e, rfl, rfl⟩
    | ok labels =>
      cases a.id.label with
      | error e => exact .inl ⟨e, rfl, rfl⟩
      | ok label =>
        refine .inr ⟨rounder, labels.map Label.key, label, q, total, n, ?_, ?_, hone, hn, hplace, hz⟩
        · simp [hq]
        · simp [Table.values, htotal]

/-- Where a course has a single assignment of a type, a share rule that asks for all of them and an
overall rule with the same required percent agree. Both are refused for the same reason or both are
built, and then their checks pass or fail together, for the same fault if they fail, and with the same
warnings. -/
theorem share_agrees_with_overall (htype : header'.assignmentType = header.assignmentType)
    (hplaces : passedRounding.UpTo 27)
    (hsingle : assignmentsOfType header.assignmentType assignments = [a])
    (hworth : a.points.IsWorth) :
    (∀ e, build .share (.share header ⟨hundred, passedRounding, required, achievedRounding⟩)
        assignments = .error e ↔
      build .overall (.overall header' ⟨required, achievedRounding⟩) assignments = .error e) ∧
    ∀ s o, build .share (.share header ⟨hundred, passedRounding, required, achievedRounding⟩)
        assignments = .ok s →
      build .overall (.overall header' ⟨required, achievedRounding⟩) assignments = .ok o →
      ∀ A : List Assessment, (∀ b ∈ A, b.achievedPoints.IsMark) →
        (s.check A).result.map CheckResult.passed = (o.check A).result.map CheckResult.passed ∧
        (s.check A).warnings = (o.check A).warnings := by
  rcases builds_single htype hplaces hsingle hworth with ⟨e, hshare, hoverall⟩ |
    ⟨rounder, known, label, q, total, n, hshare, hoverall, ⟨hle, hge⟩, hn, hplace, hz⟩
  · rw [hshare, hoverall]
    exact ⟨fun _ => Iff.rfl, fun _ _ hs => by cases hs⟩
  rw [hshare, hoverall]
  refine ⟨fun _ => by simp, fun s o hs ho A hmarks => ?_⟩
  rw [← Except.ok.inj hs, ← Except.ok.inj ho]
  exact check_single rfl rfl rfl rfl rfl hle hge hn hplace hz hmarks

end Build

/-- A course with one homework, and a lecture beside it. -/
def Sample.single : List Assignment :=
  [⟨.text "b1", .text "c", .text "LECTURE", .int 5⟩,
   ⟨.text "a1", .text "c", .text "HOMEWORK", .int 10⟩]

def Sample.sixOfTen : List Assessment :=
  [Sample.assessment "u" "a1" .null, Sample.assessment "u" "z1" (.int 3),
   Sample.assessment "u" "a1" (.int 6)]

theorem share_agrees_with_overall_sixty_percent :
    ∃ s o, build .share (.share Sample.header ⟨hundred, ⟨.up, 27⟩, .ofDecimal false 60 0, ⟨.up, 1⟩⟩)
        Sample.single = .ok s ∧
      build .overall (.overall ⟨overallType, "HOMEWORK", .pass⟩ ⟨.ofDecimal false 60 0, ⟨.up, 1⟩⟩)
        Sample.single = .ok o ∧
      (s.check Sample.sixOfTen).result.map CheckResult.passed = .ok true ∧
      (o.check Sample.sixOfTen).result.map CheckResult.passed = .ok true := by
  have hruns : (do
      let s ← build .share (.share Sample.header
        ⟨hundred, ⟨.up, 27⟩, .ofDecimal false 60 0, ⟨.up, 1⟩⟩) Sample.single
      let o ← build .overall (.overall ⟨overallType, "HOMEWORK", .pass⟩
        ⟨.ofDecimal false 60 0, ⟨.up, 1⟩⟩) Sample.single
      let r ← (o.check Sample.sixOfTen).result
      return (s, o, r)).toOption.any (fun run : Rule × Rule × CheckResult => run.2.2.passed) =
        true := by decide +kernel
  obtain ⟨_, hruns, hpassed⟩ := exists_of_any hruns
  obtain ⟨s, hs, hruns⟩ := bind_eq_ok.mp hruns
  obtain ⟨o, ho, hruns⟩ := bind_eq_ok.mp hruns
  obtain ⟨r, hr, ⟨⟩⟩ := bind_eq_ok.mp hruns
  have hoverall : (o.check Sample.sixOfTen).result.map CheckResult.passed = .ok true := by
    rw [hr]
    exact congrArg Except.ok hpassed
  have htype : RuleHeader.assignmentType ⟨overallType, "HOMEWORK", .pass⟩ =
      Sample.header.assignmentType := rfl
  have hworth : (Value.int 10).IsWorth :=
    ⟨_, rfl, Number.isFinite_int 10, Number.int_le_int.mpr (by decide), Number.isZero_int⟩
  have hmarks : ∀ b ∈ Sample.sixOfTen, b.achievedPoints.IsMark := by
    simp [Sample.sixOfTen, Sample.assessment, Value.IsMark, Value.number?]
  have hagrees := (share_agrees_with_overall htype (.inr le_rfl) rfl hworth).2 s o hs ho _ hmarks
  exact ⟨s, o, hs, ho, hagrees.1.trans hoverall, hoverall⟩

end Rule

end ExamAdmission
