import ExamAdmission.Proofs.Document.Grid
import ExamAdmission.Proofs.Rule.Counting

/-! Assessments in another order. What is achieved in each assignment stays the same, and so does
every verdict that does not add points. A sum of doubles can change with the order of its summands,
but not on a grid. -/

namespace ExamAdmission

attribute [local irreducible] rangeEnd Binary64.unit

/-- Another order of the same assessments. Those of one assignment keep theirs. -/
structure Reorders (A B : List Assessment) : Prop where
  perm : A.Perm B
  kept : ∀ key, A.filter (fun a => a.assignmentId.key? = key) =
    B.filter fun a => a.assignmentId.key? = key

theorem Reorders.swap {a b : Assessment} (front back : List Assessment)
    (h : a.assignmentId.key? ≠ b.assignmentId.key?) :
    Reorders (front ++ a :: b :: back) (front ++ b :: a :: back) := by
  refine ⟨(List.Perm.swap b a back).append_left front, fun key => ?_⟩
  rw [List.filter_append, List.filter_append]
  by_cases ha : a.assignmentId.key? = key
  · have hb : ¬ b.assignmentId.key? = key := fun hb => h (ha.trans hb.symm)
    simp [ha, hb]
  · simp [List.filter_cons, ha]

theorem passedAssignments_congr {rounder : Rounder} {requiredPercent : Binary64}
    {table table' maxPoints : Table Value} (h : ∀ key, table.find? key = table'.find? key) :
    passedAssignments rounder requiredPercent table maxPoints =
      passedAssignments rounder requiredPercent table' maxPoints := by
  induction maxPoints with
  | nil => rfl
  | cons entry rest ih =>
    obtain ⟨label, points⟩ := entry
    simp only [passedAssignments, passesAssignment, h, ih]

namespace Rule

variable {rule : Rule} {A B : List Assessment}

/-- The sums of both lists are the same, if the rule adds points at all. -/
def SumsAgree (rule : Rule) (A B : List Assessment) : Prop :=
  match rule.measure with
  | .overall .. => Value.sum (Table.ofList (A.filterMap rule.contribution?)).values =
      Value.sum (Table.ofList (B.filterMap rule.contribution?)).values
  | _ => True

theorem find?_of_reorders (h : Reorders A B) (key : Key) :
    (Table.ofList (A.filterMap rule.contribution?)).find? key =
      (Table.ofList (B.filterMap rule.contribution?)).find? key := by
  rw [Table.find?_ofList, Table.find?_ofList, filter_contributions, filter_contributions,
    h.kept (some key)]

theorem result_inj {points points' : Value} {percent percent' : Binary64} {passed passed' : Bool}
    (h : rule.result points percent passed = rule.result points' percent' passed') :
    points = points' := congrArg CheckResult.achievedPoints h

theorem verdict_eq_iff (h : Reorders A B) {r r' : CheckResult}
    (hr : rule.verdict (Table.ofList (A.filterMap rule.contribution?)) = .ok r)
    (hr' : rule.verdict (Table.ofList (B.filterMap rule.contribution?)) = .ok r') :
    r = r' ↔ rule.SumsAgree A B := by
  unfold SumsAgree
  cases hm : rule.measure with
  | nothing =>
    rw [verdict_nothing hm] at hr
    cases hr
  | share rounder requiredPercent quota =>
    obtain ⟨forms, p, hforms, hp, rfl⟩ := (verdict_share_eq_ok hm).mp hr
    obtain ⟨forms', p', hforms', hp', rfl⟩ := (verdict_share_eq_ok hm).mp hr'
    rw [passedAssignments_congr (find?_of_reorders h)] at hforms
    cases hforms.symm.trans hforms'
    cases hp.symm.trans hp'
    exact iff_of_true rfl trivial
  | overall rounder requiredPercent total =>
    obtain ⟨s, p, hs, hp, rfl⟩ := (verdict_overall_eq_ok hm).mp hr
    obtain ⟨s', p', hs', hp', rfl⟩ := (verdict_overall_eq_ok hm).mp hr'
    rw [hs, hs']
    constructor
    · intro heq
      have hvalues := congrArg Value.number? (result_inj heq)
      rw [Value.number?_toValue, Value.number?_toValue] at hvalues
      rw [Option.some.inj hvalues]
    · rintro ⟨⟩
      cases hp.symm.trans hp'
      rfl

theorem onGrid_points {step : ℕ} {A : List Assessment}
    (h : Value.OnGrid step (A.map fun a => a.achievedPoints.orZeroPoints)) :
    Value.OnGrid step (Table.ofList (A.filterMap rule.contribution?)).values :=
  (h.sublist (rule.contributions_sublist A)).ofList

theorem sumsAgree_of_onGrid {step : ℕ} (h : Reorders A B) (hstep : IsStep step)
    (hgrid : Value.OnGrid step (A.map fun a => a.achievedPoints.orZeroPoints)) {r r' : CheckResult}
    (hr : rule.verdict (Table.ofList (A.filterMap rule.contribution?)) = .ok r)
    (hr' : rule.verdict (Table.ofList (B.filterMap rule.contribution?)) = .ok r') :
    rule.SumsAgree A B := by
  unfold SumsAgree
  cases hm : rule.measure with
  | overall rounder requiredPercent total =>
    obtain ⟨s, _, hs, -⟩ := (verdict_overall_eq_ok hm).mp hr
    obtain ⟨s', _, hs', -⟩ := (verdict_overall_eq_ok hm).mp hr'
    have hperm := Table.values_perm (Table.nodup_keys_ofList (A.filterMap rule.contribution?))
      (Table.nodup_keys_ofList (B.filterMap rule.contribution?)) (find?_of_reorders h)
    have heq := (onGrid_points hgrid).sum_eq_of_perm hstep hperm hs hs'
    show Value.sum _ = Value.sum _
    rw [hs, hs', heq]
  | _ => trivial

end Rule

namespace Engine

variable {engine : Engine} {A B : List Assessment} {s s' : AdmissionStatus}

theorem results_eq_iff {rules : List Rule} {results results' : List CheckResult}
    (h : Reorders A B)
    (hA : List.Forall₂ (fun rule r => (rule.check A).result = .ok r) rules results)
    (hB : List.Forall₂ (fun rule r => (rule.check B).result = .ok r) rules results') :
    results = results' ↔ ∀ rule ∈ rules, rule.SumsAgree A B := by
  induction hA generalizing results' with
  | nil =>
    cases hB
    simp
  | @cons rule r rules results hr _ ih =>
    cases hB with
    | @cons _ r' _ others hr' hothers =>
      have hfirst := Rule.verdict_eq_iff h (Rule.check_eq_ok.mp hr).2 (Rule.check_eq_ok.mp hr').2
      rw [List.cons.injEq, List.forall_mem_cons, hfirst, ih hothers]

/-- The order in which assessments are listed changes a status only where it changes the sum of an
overall rule, and nowhere if all points are multiples of one step. -/
theorem evaluate_reorders (h : Reorders A B) (hs : (engine.evaluate A).result = .ok s)
    (hs' : (engine.evaluate B).result = .ok s') :
    (s = s' ↔ ∀ rule ∈ engine.rules, rule.SumsAgree A B) ∧
      ((∃ step, IsStep step ∧
        Value.OnGrid step (A.map fun a => a.achievedPoints.orZeroPoints)) → s = s') := by
  obtain ⟨hadm, hresults⟩ := evaluate_eq_ok.mp hs
  obtain ⟨hadm', hresults'⟩ := evaluate_eq_ok.mp hs'
  have hstatus : s = s' ↔ s.results = s'.results := by
    constructor
    · rintro rfl
      rfl
    · intro heq
      obtain ⟨admitted, results⟩ := s
      obtain ⟨admitted', results'⟩ := s'
      obtain rfl : results = results' := heq
      exact congrArg (AdmissionStatus.mk · results) (hadm.trans hadm'.symm)
  have hiff := hstatus.trans (results_eq_iff h hresults hresults')
  refine ⟨hiff, fun ⟨step, hstep, hgrid⟩ => hiff.mpr fun rule hrule => ?_⟩
  obtain ⟨r, -, hr⟩ := exists_of_forall₂ hresults.flip hrule
  obtain ⟨r', -, hr'⟩ := exists_of_forall₂ hresults'.flip hrule
  exact Rule.sumsAgree_of_onGrid h hstep hgrid (Rule.check_eq_ok.mp hr).2
    (Rule.check_eq_ok.mp hr').2

/-- Tenths are on no such grid. -/
example : (Value.sum [.float (.ofDecimal false 1 (-1)), .float (.ofDecimal false 2 (-1)),
      .float (.ofDecimal false 3 (-1))]).toOption ≠
    (Value.sum [.float (.ofDecimal false 3 (-1)), .float (.ofDecimal false 2 (-1)),
      .float (.ofDecimal false 1 (-1))]).toOption := by decide +kernel

theorem evaluate_reorders_two_homeworks :
    ∃ engine s s', (ofPolicy .standard Sample.assignments Sample.policy).result = .ok engine ∧
      (engine.evaluate [Sample.assessment "u" "a1" (.int 7),
        Sample.assessment "u" "a2" (.int 18)]).result = .ok s ∧
      (engine.evaluate [Sample.assessment "u" "a2" (.int 18),
        Sample.assessment "u" "a1" (.int 7)]).result = .ok s' ∧ s = s' := by
  have hruns : (do
      let engine ← ofPolicy .standard Sample.assignments Sample.policy
      let s ← engine.evaluate [Sample.assessment "u" "a1" (.int 7),
        Sample.assessment "u" "a2" (.int 18)]
      let s' ← engine.evaluate [Sample.assessment "u" "a2" (.int 18),
        Sample.assessment "u" "a1" (.int 7)]
      return (engine, s, s')).result.isOk = true := by
    rw [Sample.ofPolicy_policy]
    decide +kernel
  obtain ⟨_, hruns⟩ := exists_of_isOk hruns
  obtain ⟨engine, hengine, hruns⟩ := Run.bind_result_eq_ok.mp hruns
  obtain ⟨s, hs, hruns⟩ := Run.bind_result_eq_ok.mp hruns
  obtain ⟨s', hs', -⟩ := Run.bind_result_eq_ok.mp hruns
  have hswap := Reorders.swap (a := Sample.assessment "u" "a1" (.int 7))
    (b := Sample.assessment "u" "a2" (.int 18)) [] [] (by decide)
  have hgrid : Value.OnGrid Binary64.unit [.int 7, .int 18] :=
    Value.onGrid_ints [7, 18] (by decide)
  exact ⟨engine, s, s', hengine, hs, hs',
    (evaluate_reorders hswap hs hs').2 ⟨_, isStep_unit, hgrid⟩⟩

end Engine

end ExamAdmission
