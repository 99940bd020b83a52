import ExamAdmission.Proofs.Engine.Composition
import ExamAdmission.Proofs.Rule.Monotone
import ExamAdmission.Proofs.Rule.OverallChecks
import Mathlib.Logic.Relation

/-! More points never cost the admission. A list of assessments is improved by raising the points
of an entry and by a first entry for an assignment, in any order and at any place. Points that an
overall rule sums may be whole numbers, but then only as long as doubles can count them. -/

namespace ExamAdmission

attribute [local irreducible] rangeEnd Binary64.unit

/-- Points as a course has them: none yet, or a finite number. -/
def FinitePoints (assessments : List Assessment) : Prop :=
  ∀ a ∈ assessments, a.achievedPoints = .null ∨ a.achievedPoints.IsFinite

/-- What the whole numbers among the points that a rule sums come to, without their signs. A share
rule sums no points. -/
def Rule.summedWhole (rule : Rule) (assignments : List Assignment) (A : List Assessment) : ℕ :=
  match rule.measure with
  | .overall _ _ _ => ((mentionedKeys rule.basis.assignmentType assignments A).map fun key =>
      (lastPoints A key).whole).sum
  | _ => 0

/-- One improvement of a list. Missing points count as zero, and the entry that comes in is for an
assignment that no other entry counts for. -/
inductive Improves : List Assessment → List Assessment → Prop
  | raise (before after : List Assessment) (a : Assessment) (points : Value)
      (h : a.achievedPoints.orZeroPoints.AtMost points.orZeroPoints) :
      Improves (before ++ a :: after) (before ++ { a with achievedPoints := points } :: after)
  | insert (before after : List Assessment) (a : Assessment)
      (h : (Value.int 0).AtMost a.achievedPoints.orZeroPoints)
      (hnew : ∀ b ∈ before ++ after, b.isDraft.holds = false →
        b.assignmentId.key? ≠ a.assignmentId.key?) :
      Improves (before ++ after) (before ++ a :: after)

theorem Value.isFinite_orZeroPoints {v : Value} (h : v = .null ∨ v.IsFinite) :
    v.orZeroPoints.IsFinite := by
  have hzero : (Value.float (.zero false)).IsFinite :=
    ⟨_, rfl, Number.isFinite_float.mpr ⟨_, _, rfl⟩⟩
  unfold orZeroPoints
  split
  · rcases h with rfl | h
    · rename_i hholds
      cases hholds
    · exact h
  · exact hzero

theorem Value.whole_orZeroPoints (v : Value) : v.orZeroPoints.whole = v.whole := by
  unfold orZeroPoints
  split
  · rfl
  · rename_i hholds
    cases v <;> simp_all [whole, number?, Number.whole, holds]

namespace Rule

variable {rule : Rule}

theorem grows_of_improves {A B : List Assessment} (h : Improves A B) :
    Table.Grows (Table.ofList (A.filterMap rule.contribution?))
      (Table.ofList (B.filterMap rule.contribution?)) := by
  cases h with
  | raise before after a points h =>
    have hsame : ∀ es : List (Label × Value), List.Forall₂ Table.RaisedTo es es := fun es =>
      List.forall₂_same.mpr fun _ _ => ⟨rfl, .inl rfl⟩
    have hlabel : rule.label? { a with achievedPoints := points } = rule.label? a := rfl
    cases hl : rule.label? a with
    | none =>
      simp only [List.filterMap_append, List.filterMap_cons, contribution?, hlabel, hl,
        Option.map_none]
      exact .refl _
    | some label =>
      simp only [List.filterMap_append, List.filterMap_cons, contribution?, hlabel, hl,
        Option.map_some]
      exact .ofList_of_forall₂ (List.rel_append (hsame _) (.cons ⟨rfl, .inr h⟩ (hsame _)))
  | insert before after a h hnew =>
    cases hl : rule.label? a with
    | none =>
      simp only [List.filterMap_append, List.filterMap_cons, contribution?, hl, Option.map_none]
      exact .refl _
    | some label =>
      simp only [List.filterMap_append, List.filterMap_cons, contribution?, hl, Option.map_some]
      refine .ofList_insert h fun e he hkey => ?_
      rw [← List.filterMap_append, List.mem_filterMap] at he
      obtain ⟨b, hb, hentry⟩ := he
      obtain ⟨other, hother, rfl⟩ := Option.map_eq_some_iff.mp hentry
      obtain ⟨hdraft, hkey', -⟩ := label?_eq_some.mp hother
      exact hnew b hb hdraft (by rw [hkey', (label?_eq_some.mp hl).2.1, ← hkey])

theorem grows_of_reflTransGen {A B : List Assessment} (h : Relation.ReflTransGen Improves A B) :
    Table.Grows (Table.ofList (A.filterMap rule.contribution?))
      (Table.ofList (B.filterMap rule.contribution?)) := by
  induction h with
  | refl => exact .refl _
  | tail _ hstep ih => exact ih.trans (grows_of_improves hstep)

theorem isFinite_entries {A : List Assessment} (h : FinitePoints A) :
    ∀ v ∈ (Table.ofList (A.filterMap rule.contribution?)).values, v.IsFinite := by
  intro v hv
  obtain ⟨e, he, rfl⟩ := List.mem_map.mp (Table.mem_values_ofList hv)
  obtain ⟨a, ha, hentry⟩ := List.mem_filterMap.mp he
  obtain ⟨label, -, rfl⟩ := Option.map_eq_some_iff.mp hentry
  exact Value.isFinite_orZeroPoints (h a ha)

theorem sum_whole_entries {header : RuleHeader} {assignments : List Assignment} {rounder : Rounder}
    {required : Binary64} {total : Number}
    (h : RuleBasis.build header assignments = .ok rule.basis)
    (hm : rule.measure = .overall rounder required total) (A : List Assessment) :
    ((Table.ofList (A.filterMap rule.contribution?)).values.map Value.whole).sum =
      rule.summedWhole assignments A := by
  obtain ⟨_, _, -, -, -, -, -, -, -, htype⟩ := RuleBasis.build_eq_ok h
  simp only [summedWhole, hm, htype, values_contributions h, List.map_map, Function.comp_def,
    Value.whole_orZeroPoints]

/-- Improving a list makes the result of a rule no worse. -/
theorem check_mono {which : RuleClass} {config : RuleConfig} {assignments : List Assignment}
    {A B : List Assessment} {r r' : CheckResult} (hconfig : config.InRange)
    (hpoints : ∀ a ∈ assignments, a.points.IsFinite)
    (hbuild : build which config assignments = .ok rule) (hA : FinitePoints A)
    (hB : FinitePoints B) (h : Relation.ReflTransGen Improves A B)
    (hr : (rule.check A).result = .ok r) (hr' : (rule.check B).result = .ok r')
    (hwhole : rule.summedWhole assignments A ≤ 2 ^ 53)
    (hwhole' : rule.summedWhole assignments B ≤ 2 ^ 53) : r.AtMost r' := by
  refine (sound_build hconfig hpoints hbuild).verdict_mono (grows_of_reflTransGen h)
    (Table.nodup_keys_ofList _) (isFinite_entries hA) (isFinite_entries hB) ?_
    (check_eq_ok.mp hr).2 (check_eq_ok.mp hr').2
  intro rounder required total hm
  have hbasis := (build_eq_ok hbuild).1
  rw [sum_whole_entries hbasis hm, sum_whole_entries hbasis hm]
  exact ⟨hwhole, hwhole'⟩

end Rule

theorem CheckResult.all_passed_mono {results results' : List CheckResult}
    (h : List.Forall₂ CheckResult.AtMost results results')
    (hall : results.all CheckResult.passed = true) : results'.all CheckResult.passed = true := by
  induction h with
  | nil => rfl
  | cons hr _ ih =>
    simp only [List.all_cons, Bool.and_eq_true] at hall ⊢
    exact ⟨hr.passed hall.1, ih hall.2⟩

/-- Improving a list of assessments makes no result of an engine worse: neither points nor counts
nor percents fall, no rule that was passed is failed, and an admission stays. -/
theorem Engine.evaluate_mono {registry : Registry} {assignments : List Assignment}
    {document : Value} {engine : Engine} {A B : List Assessment} {s s' : AdmissionStatus}
    (hengine : (Engine.ofPolicy registry assignments document).result = .ok engine)
    (hpoints : ∀ a ∈ assignments, a.points.IsFinite) (hA : FinitePoints A)
    (hB : FinitePoints B) (h : Relation.ReflTransGen Improves A B)
    (hs : (engine.evaluate A).result = .ok s) (hs' : (engine.evaluate B).result = .ok s') :
    List.Forall₂ (fun rule results => rule.summedWhole assignments A ≤ 2 ^ 53 →
        rule.summedWhole assignments B ≤ 2 ^ 53 → results.1.AtMost results.2)
      engine.rules (s.results.zip s'.results) ∧
    ((∀ rule ∈ engine.rules, rule.summedWhole assignments A ≤ 2 ^ 53 ∧
        rule.summedWhole assignments B ≤ 2 ^ 53) →
      s.hasAdmission = true → s'.hasAdmission = true) := by
  obtain ⟨configs, -, hrules⟩ := exists_of_ofPolicy hengine
  obtain ⟨hadm, hresults⟩ := evaluate_eq_ok.mp hs
  obtain ⟨hadm', hresults'⟩ := evaluate_eq_ok.mp hs'
  have hcheck : ∀ rule ∈ engine.rules, ∀ r r', (rule.check A).result = .ok r →
      (rule.check B).result = .ok r' → rule.summedWhole assignments A ≤ 2 ^ 53 →
        rule.summedWhole assignments B ≤ 2 ^ 53 → r.AtMost r' := by
    intro rule hrule r r' hr hr'
    obtain ⟨source, -, hbuild⟩ := hrules rule hrule
    obtain ⟨which, config, hparse, -, hmake⟩ := Registry.exists_of_build hbuild
    exact Rule.check_mono (RuleConfig.inRange_parse hparse) hpoints hmake hA hB h hr hr'
  refine ⟨forall₂_zip hresults hresults' hcheck, fun hwhole => ?_⟩
  rw [hadm, hadm']
  refine CheckResult.all_passed_mono (forall₂_of_forall₂ hresults hresults' ?_)
  intro rule hrule r r' hr hr'
  exact hcheck rule hrule r r' hr hr' (hwhole rule hrule).1 (hwhole rule hrule).2

/-- A homework without points yet, and then with points and another one before it. -/
def Sample.ungraded : List Assessment := [assessment "u" "a1" .null]

def Sample.graded : List Assessment := [assessment "u" "a2" (.int 18), assessment "u" "a1" (.int 7)]

theorem Sample.improves_graded : Relation.ReflTransGen Improves ungraded graded := by
  have hpoints : Number.float (.zero false) ≤ .int 7 :=
    Number.le_trans (Number.float_zero_le false) (Number.int_le_int.mpr (by decide))
  have hraise := Improves.raise [] [] (assessment "u" "a1" .null) (.int 7) ⟨_, _, rfl, rfl, hpoints⟩
  have hinsert := Improves.insert [] [assessment "u" "a1" (.int 7)] (assessment "u" "a2" (.int 18))
    ⟨_, _, rfl, rfl, Number.int_le_int.mpr (by decide)⟩ (by decide)
  exact .tail (.single hraise) hinsert

theorem Engine.evaluate_mono_grade_and_homework :
    ∃ engine s s', (ofPolicy .standard Sample.assignments Sample.policy).result = .ok engine ∧
      (engine.evaluate Sample.ungraded).result = .ok s ∧
      (engine.evaluate Sample.graded).result = .ok s' ∧
      List.Forall₂ (fun rule results =>
          rule.summedWhole Sample.assignments Sample.ungraded ≤ 2 ^ 53 →
          rule.summedWhole Sample.assignments Sample.graded ≤ 2 ^ 53 →
          results.1.AtMost results.2)
        engine.rules (s.results.zip s'.results) ∧
      (s.hasAdmission = true → s'.hasAdmission = true) := by
  have hruns : (do
      let engine ← ofPolicy .standard Sample.assignments Sample.policy
      let s ← engine.evaluate Sample.ungraded
      let s' ← engine.evaluate Sample.graded
      return (engine, s, s')).result.toOption.any
        (fun run : Engine × AdmissionStatus × AdmissionStatus => run.1.rules.all fun rule =>
          rule.summedWhole Sample.assignments Sample.ungraded ≤ 2 ^ 53 ∧
            rule.summedWhole Sample.assignments Sample.graded ≤ 2 ^ 53) = true := by
    rw [Sample.ofPolicy_policy]
    decide +kernel
  obtain ⟨_, hruns, hsmall⟩ := exists_of_any hruns
  obtain ⟨engine, hengine, hruns⟩ := Run.bind_result_eq_ok.mp hruns
  obtain ⟨s, hs, hruns⟩ := Run.bind_result_eq_ok.mp hruns
  obtain ⟨s', hs', ⟨⟩⟩ := Run.bind_result_eq_ok.mp hruns
  have hungraded : FinitePoints Sample.ungraded := List.forall_mem_singleton.mpr (.inl rfl)
  have hgraded : FinitePoints Sample.graded :=
    List.forall_mem_cons.mpr ⟨.inr (Value.isFinite_int 18),
      List.forall_mem_singleton.mpr (.inr (Value.isFinite_int 7))⟩
  obtain ⟨hresults, hadmission⟩ := evaluate_mono hengine Sample.isFinite_assignments hungraded
    hgraded Sample.improves_graded hs hs'
  refine ⟨engine, s, s', hengine, hs, hs', hresults, hadmission fun rule hrule => ?_⟩
  exact of_decide_eq_true (List.all_eq_true.mp hsmall rule hrule)

namespace Sample

/-- A course with more points, in whole numbers, than doubles can count. -/
def vastCourse : List Assignment :=
  [⟨.text "a1", .text "c", .text "HOMEWORK", .int (2 ^ 53 + 3)⟩,
   ⟨.text "a2", .text "c", .text "HOMEWORK", .int 1⟩,
   ⟨.text "a3", .text "c", .text "HOMEWORK", .int 1⟩,
   ⟨.text "a4", .text "c", .text "HOMEWORK", .int 1⟩]

def allPoints : Value := .object [("rules", .list [overallConfig 100 (rounding "none" 2)])]

/-- The points of the first homework and all points of the others. -/
def vastWork (first : Value) : List Assessment :=
  [assessment "u" "a1" first, assessment "u" "a2" (.int 1), assessment "u" "a3" (.int 1),
   assessment "u" "a4" (.int 1)]

/-- The points of the first homework, and the double next above them. -/
def vastPoints : Value := .int (2 ^ 53 + 3)

def vastDouble : Value := .float (.ofDecimal false (2 ^ 53 + 4) 0)

theorem finitePoints_vastWork {first : Value} (h : first.IsFinite) :
    FinitePoints (vastWork first) := by
  intro a ha
  simp only [vastWork, List.mem_cons, List.not_mem_nil, or_false] at ha
  rcases ha with rfl | rfl | rfl | rfl
  · exact .inr h
  all_goals exact .inr (Value.isFinite_int 1)

end Sample

/-- Beyond the whole numbers that doubles count, more points can cost the admission. Whole numbers
are summed exactly, and after a double in the place of the first one each of the others is rounded
away. -/
theorem Engine.evaluate_not_mono_vastCourse :
    ∃ engine s s',
      (ofPolicy .standard Sample.vastCourse Sample.allPoints).result = .ok engine ∧
      (∀ a ∈ Sample.vastCourse, a.points.IsFinite) ∧
      FinitePoints (Sample.vastWork Sample.vastPoints) ∧
      FinitePoints (Sample.vastWork Sample.vastDouble) ∧
      Relation.ReflTransGen Improves (Sample.vastWork Sample.vastPoints)
        (Sample.vastWork Sample.vastDouble) ∧
      (engine.evaluate (Sample.vastWork Sample.vastPoints)).result = .ok s ∧
      (engine.evaluate (Sample.vastWork Sample.vastDouble)).result = .ok s' ∧
      s.hasAdmission = true ∧ s'.hasAdmission = false := by
  have hruns : (do
      let engine ← ofPolicy .standard Sample.vastCourse Sample.allPoints
      let s ← engine.evaluate (Sample.vastWork Sample.vastPoints)
      let s' ← engine.evaluate (Sample.vastWork Sample.vastDouble)
      return (engine, s, s')).result.toOption.any
        (fun run : Engine × AdmissionStatus × AdmissionStatus =>
          run.2.1.hasAdmission && !run.2.2.hasAdmission) = true := by decide +kernel
  obtain ⟨_, hruns, hadmissions⟩ := exists_of_any hruns
  obtain ⟨engine, hengine, hruns⟩ := Run.bind_result_eq_ok.mp hruns
  obtain ⟨s, hs, hruns⟩ := Run.bind_result_eq_ok.mp hruns
  obtain ⟨s', hs', ⟨⟩⟩ := Run.bind_result_eq_ok.mp hruns
  rw [Bool.and_eq_true, Bool.not_eq_true'] at hadmissions
  have hcourse : ∀ a ∈ Sample.vastCourse, a.points.IsFinite := by
    simp [Sample.vastCourse, Value.isFinite_int]
  obtain ⟨hplace, hholds⟩ : (Number.float (.ofDecimal false (2 ^ 53 + 4) 0)).position? =
      (Number.int (2 ^ 53 + 4)).position? ∧ Sample.vastDouble.holds = true := by decide +kernel
  have hle : Number.int (2 ^ 53 + 3) ≤ .float (.ofDecimal false (2 ^ 53 + 4) 0) :=
    (Number.le_congr rfl hplace).mpr (Number.int_le_int.mpr (by norm_num))
  have hdouble : Sample.vastDouble.orZeroPoints.number? =
      some (.float (.ofDecimal false (2 ^ 53 + 4) 0)) := by
    rw [Value.orZeroPoints, if_pos hholds]
    rfl
  have hraise : Improves (Sample.vastWork Sample.vastPoints) (Sample.vastWork Sample.vastDouble) :=
    .raise [] _ (Sample.assessment "u" "a1" Sample.vastPoints) Sample.vastDouble
      ⟨_, _, rfl, hdouble, hle⟩
  exact ⟨engine, s, s', hengine, hcourse,
    Sample.finitePoints_vastWork (Value.isFinite_int (2 ^ 53 + 3)),
    Sample.finitePoints_vastWork ⟨_, rfl, _, hplace⟩, .single hraise, hs, hs', hadmissions⟩

end ExamAdmission
