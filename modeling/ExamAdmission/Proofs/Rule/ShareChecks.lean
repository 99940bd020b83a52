import ExamAdmission.Proofs.Rule.LastEntries
import Mathlib.Data.Finset.Card

/-! Checks by a share rule, said without the tables. What counts is the last entry for each
assignment of the rule's type, and nothing else of a course or of the assessments. -/

namespace ExamAdmission

attribute [local irreducible] rangeEnd Binary64.unit

/-- Points that make the required percent of a maximum, after rounding. -/
def Reaches (rounder : Rounder) (required : Binary64) (points max : Value) : Prop :=
  ∃ p x, percentOf points max = .ok p ∧ rounder.round p = .ok x ∧
    Number.float required ≤ .float x

section Share

variable {rounder : Rounder} {required : Binary64} {table table' maxPoints : Table Value}

theorem passedAssignments_of_imp {forms : List Value}
    (h : ∀ e ∈ maxPoints, ∀ b, passesAssignment rounder required table e.1.key e.2 = .ok b →
      passesAssignment rounder required table' e.1.key e.2 = .ok b)
    (hforms : passedAssignments rounder required table maxPoints = .ok forms) :
    passedAssignments rounder required table' maxPoints = .ok forms := by
  obtain ⟨hknown, rfl⟩ := passedAssignments_eq_ok.mp hforms
  refine passedAssignments_eq_ok.mpr ⟨fun e he => (hknown e he).imp (h e he), ?_⟩
  refine congrArg _ (List.filter_congr fun e he => ?_)
  obtain ⟨b, hb⟩ := hknown e he
  simp only [isPassed, hb, h e he b hb]

theorem exists_passedKeys {forms : List Value} (hn : maxPoints.keys.Nodup)
    (h : passedAssignments rounder required table maxPoints = .ok forms) :
    ∃ passed : Finset Key, forms.length = passed.card ∧ ∀ key, key ∈ passed ↔
      ∃ max, maxPoints.find? key = some max ∧
        passesAssignment rounder required table key max = .ok true := by
  obtain ⟨-, rfl⟩ := passedAssignments_eq_ok.mp h
  let passed : Table Value := maxPoints.filter (isPassed rounder required table)
  have hnodup : passed.keys.Nodup := hn.sublist (List.filter_sublist.map _)
  refine ⟨passed.keys.toFinset, ?_, fun key => ?_⟩
  · rw [List.toFinset_card_of_nodup hnodup, Table.keys, List.length_map, List.length_map]
  · rw [List.mem_toFinset, Table.keys, List.mem_map]
    constructor
    · rintro ⟨e, he, rfl⟩
      obtain ⟨hmem, hpass⟩ := List.mem_filter.mp he
      exact ⟨e.2, Table.find?_of_mem hn hmem, isPassed_iff.mp hpass⟩
    · rintro ⟨max, hmax, hpass⟩
      obtain ⟨front, label, back, rfl, rfl⟩ := Table.exists_of_find? hmax
      exact ⟨(label, max), List.mem_filter.mpr ⟨by simp, isPassed_iff.mpr hpass⟩, rfl⟩

end Share

theorem RuleBasis.eq_of_same_type {header : RuleHeader} {assignments assignments' : List Assignment}
    {basis basis' : RuleBasis} (h : build header assignments = .ok basis)
    (h' : build header assignments' = .ok basis')
    (hsame : assignmentsOfType header.assignmentType assignments' =
      assignmentsOfType header.assignmentType assignments) :
    basis'.relevant = basis.relevant ∧ basis'.maxPoints = basis.maxPoints ∧
      basis'.ruleType = basis.ruleType ∧ basis'.assignmentType = basis.assignmentType := by
  obtain ⟨_, entries, -, hrel, -, hentries, -, hmax, hrule, htype⟩ := build_eq_ok h
  obtain ⟨_, entries', -, hrel', -, hentries', -, hmax', hrule', htype'⟩ := build_eq_ok h'
  have hrelevant : basis'.relevant = basis.relevant := hrel'.trans (hsame.trans hrel.symm)
  rw [hrelevant] at hentries'
  have heq : List.Forall₂ Eq entries' entries := by
    refine forall₂_of_forall₂ hentries' hentries fun a _ e' e he' he => ?_
    have hlabel : e'.1 = e.1 := Except.ok.inj (he'.1.symm.trans he.1)
    exact Prod.ext hlabel (he'.2.symm.trans he.2)
  rw [List.forall₂_eq_eq_eq] at heq
  exact ⟨hrelevant, by rw [hmax, hmax', heq], hrule'.trans hrule.symm, htype'.trans htype.symm⟩

namespace Rule

variable {rule rule' : Rule} {assessments : List Assessment}

theorem counted_eq_error {e : Fault} (h : (rule.counted assessments).result = .error e) :
    e = .wrongKind := by
  induction assessments with
  | nil => cases h
  | cons a rest ih =>
    unfold counted at h
    split at h
    · exact ih h
    rcases Run.bind_result_eq_error.mp h with hlabel | ⟨label, -, h⟩
    · unfold Value.label at hlabel
      simp only [Run.of_result] at hlabel
      split at hlabel
      · cases hlabel
      · exact (Except.error.inj hlabel).symm
    split at h
    · rcases Run.bind_result_eq_error.mp h with htell | ⟨_, -, h⟩
      · cases htell
      · exact ih h
    · rcases Run.bind_result_eq_error.mp h with hothers | ⟨_, -, h⟩
      · exact ih hothers
      · split at h <;> cases h

theorem counted_congr (h : rule.contribution? = rule'.contribution?) :
    (rule.counted assessments).result = (rule'.counted assessments).result := by
  have hfault : ∀ rule : Rule, ¬ (∀ a ∈ assessments, a.Labelled) →
      (rule.counted assessments).result = .error .wrongKind := by
    intro rule hlabelled
    cases hr : (rule.counted assessments).result with
    | ok entries => exact absurd (counted_eq_ok.mp hr).1 hlabelled
    | error e => rw [counted_eq_error hr]
  by_cases hlabelled : ∀ a ∈ assessments, a.Labelled
  · rw [counted_eq_ok.mpr ⟨hlabelled, rfl⟩, counted_eq_ok.mpr ⟨hlabelled, rfl⟩, h]
  · rw [hfault rule hlabelled, hfault rule' hlabelled]

theorem check_congr (hm : rule.measure ≠ .nothing) (hm' : rule'.measure ≠ .nothing)
    (hcontribution : rule.contribution? = rule'.contribution?)
    (hverdict : ∀ table, rule.verdict table = rule'.verdict table) :
    (rule.check assessments).result = (rule'.check assessments).result := by
  have hachieved : ∀ rule : Rule, (rule.achieved assessments).result =
      ((rule.counted assessments).result >>= fun entries => .ok (Table.ofList entries)) :=
    fun _ => Run.bind_of_result _
  rw [check_of_measured hm, check_of_measured hm', Run.bind_of_result, Run.bind_of_result,
    hachieved, hachieved, counted_congr hcontribution, funext hverdict]

theorem passes_iff {rounder : Rounder} {required : Binary64} {key : Key} {max : Value} {b : Bool}
    (h : rule.basis.WellLabelled) (hkey : key ∈ rule.basis.maxPoints.keys) :
    passesAssignment rounder required (Table.ofList (assessments.filterMap rule.contribution?)) key
        max = .ok b ↔
      ∃ p x, percentOf (lastPoints assessments key) max = .ok p ∧ rounder.round p = .ok x ∧
        (Number.float required).le (.float x) = b := by
  have hpercent : ∀ p, percentOf (lastPoints assessments key).orZeroPoints max = .ok p ↔
      percentOf (lastPoints assessments key) max = .ok p := fun p =>
    percentOf_congr (by rw [Value.orZero_orZeroPoints])
  simp only [passesAssignment_eq_ok, getD_contributions h hkey, hpercent]

section Build

variable {header : RuleHeader} {terms : ShareTerms} {assignments assignments' : List Assignment}
  {rounder : Rounder} {required quota : Binary64} {r : CheckResult}

theorem check_share_spec (h : RuleBasis.build header assignments = .ok rule.basis)
    (hm : rule.measure = .share rounder required quota)
    (hr : (rule.check assessments).result = .ok r) :
    ∃ passed : Finset Key,
      (∀ key, key ∈ passed ↔ ∃ max, maximum? header.assignmentType assignments key = some max ∧
        Reaches rounder required (lastPoints assessments key) max) ∧
      r.achievedPoints = .int passed.card ∧
      (r.passed = true ↔ Number.float quota ≤ .int passed.card) ∧
      percentOfQuota passed.card quota = .ok r.achievedPercent := by
  have hwell := RuleBasis.wellLabelled_build h
  obtain ⟨forms, p, hforms, hp, rfl⟩ := (verdict_share_eq_ok hm).mp (check_eq_ok.mp hr).2
  obtain ⟨passed, hcard, hmem⟩ := exists_passedKeys hwell.nodup hforms
  rw [hcard] at hp ⊢
  refine ⟨passed, fun key => ?_, rfl, Iff.rfl, hp⟩
  rw [hmem]
  refine exists_congr fun max => ?_
  rw [RuleBasis.find?_maxPoints h]
  refine and_congr_right fun hmax => ?_
  have hkey : key ∈ rule.basis.maxPoints.keys :=
    Table.mem_keys_iff.mpr ⟨max, (RuleBasis.find?_maxPoints h key).trans hmax⟩
  exact passes_iff hwell hkey

theorem check_of_same_last {others : List Assessment}
    (h : RuleBasis.build header assignments = .ok rule.basis)
    (hm : rule.measure = .share rounder required quota)
    (hr : (rule.check assessments).result = .ok r) (hlabelled : ∀ a ∈ others, a.Labelled)
    (hsame : ∀ key max, maximum? header.assignmentType assignments key = some max →
      (lastPoints assessments key).same (lastPoints others key) = true) :
    (rule.check others).result = .ok r := by
  have hwell := RuleBasis.wellLabelled_build h
  obtain ⟨forms, p, hforms, hp, hresult⟩ := (verdict_share_eq_ok hm).mp (check_eq_ok.mp hr).2
  have hforms' : passedAssignments rounder required
      (Table.ofList (others.filterMap rule.contribution?)) rule.basis.maxPoints = .ok forms := by
    refine passedAssignments_of_imp (fun e he b hb => ?_) hforms
    have hkey : e.1.key ∈ rule.basis.maxPoints.keys := List.mem_map_of_mem he
    have hfind := Table.find?_of_mem hwell.nodup he
    have hmax := (RuleBasis.find?_maxPoints h e.1.key).symm.trans hfind
    obtain ⟨p, x, hp, hx, hle⟩ := (passes_iff hwell hkey).mp hb
    have hpoints := Value.toBinary64_orZero_of_same (hsame _ _ hmax)
    exact (passes_iff hwell hkey).mpr ⟨p, x, (percentOf_congr hpoints).mp hp, hx, hle⟩
  exact check_eq_ok.mpr
    ⟨hlabelled, (verdict_share_eq_ok hm).mpr ⟨forms, p, hforms', hp, hresult⟩⟩

theorem contribution?_of_maxPoints (h : rule.basis.WellLabelled) (h' : rule'.basis.WellLabelled)
    (hmax : rule.basis.maxPoints = rule'.basis.maxPoints) :
    rule.contribution? = rule'.contribution? := by
  have hknown : ∀ rule : Rule, rule.basis.WellLabelled → ∀ key,
      (key ∈ rule.basis.known ∧ key ∈ rule.basis.maxPoints.keys) =
        (key ∈ rule.basis.maxPoints.keys) := by
    intro rule h key
    exact propext (and_iff_right_of_imp fun hkey => h.known hkey)
  have hfirst := hknown rule h
  rw [hmax] at hfirst
  funext a
  simp only [contribution?, label?, hmax, hfirst, hknown rule' h']

theorem check_of_same_type (h : build .share (.share header terms) assignments = .ok rule)
    (h' : build .share (.share header terms) assignments' = .ok rule')
    (hsame : assignmentsOfType header.assignmentType assignments' =
      assignmentsOfType header.assignmentType assignments) :
    (rule'.check assessments).result = (rule.check assessments).result := by
  obtain ⟨_, _, rounder, q, ⟨⟩, hpassed, hrounder, hbasis, hq, hm⟩ := build_share_eq_ok h
  obtain ⟨_, _, _, q', ⟨⟩, hpassed', hrounder', hbasis', hq', hm'⟩ := build_share_eq_ok h'
  cases hpassed.symm.trans hpassed'
  cases hrounder.symm.trans hrounder'
  obtain ⟨hrelevant, hmax, htypes⟩ := RuleBasis.eq_of_same_type hbasis hbasis' hsame
  rw [hrelevant] at hq'
  cases hq.symm.trans hq'
  have hcontribution := contribution?_of_maxPoints (RuleBasis.wellLabelled_build hbasis')
    (RuleBasis.wellLabelled_build hbasis) hmax
  refine check_congr (by rw [hm']; exact nofun) (by rw [hm]; exact nofun) hcontribution
    fun table => ?_
  unfold verdict
  rw [hm, hm']
  simp only [result, hmax, htypes.1, htypes.2]

/-- A share rule counts the assignments of its type whose last points, as entries or zero, make the
required percent. Nothing else of the assessments or of the course makes a difference to it. -/
theorem check_share (h : build .share (.share header terms) assignments = .ok rule) :
    ∃ rounder quota, terms.achievedRounding.rounder = .ok rounder ∧
      rule.measure = .share rounder terms.requiredPercent quota ∧
      (∀ A r, (rule.check A).result = .ok r → ∃ passed : Finset Key,
        (∀ key, key ∈ passed ↔ ∃ max, maximum? header.assignmentType assignments key = some max ∧
          Reaches rounder terms.requiredPercent (lastPoints A key) max) ∧
        r.achievedPoints = .int passed.card ∧
        (r.passed = true ↔ Number.float quota ≤ .int passed.card) ∧
        ((Number.float quota).isZero = true → r.achievedPercent = hundred) ∧
        ((Number.float quota).isZero = false →
          percentOf (.int passed.card) (.float quota) = .ok r.achievedPercent)) ∧
      (∀ A B r, (rule.check A).result = .ok r → (∀ b ∈ B, b.Labelled) →
        (∀ a ∈ assignmentsOfType header.assignmentType assignments, ∀ key,
          a.id.key? = some key → (lastPoints A key).same (lastPoints B key) = true) →
        (rule.check B).result = .ok r) ∧
      ∀ assignments' rule', build .share (.share header terms) assignments' = .ok rule' →
        assignmentsOfType header.assignmentType assignments' =
          assignmentsOfType header.assignmentType assignments →
        ∀ A, (rule'.check A).result = (rule.check A).result := by
  obtain ⟨_, _, rounder, quota, ⟨⟩, -, hrounder, hbasis, -, hm⟩ := build_share_eq_ok h
  refine ⟨rounder, quota, hrounder, hm, fun A r hr => ?_, fun A B r hr hlabelled hsame => ?_,
    fun assignments' rule' h' hsame A => check_of_same_type h h' hsame⟩
  · obtain ⟨passed, hmem, hpoints, hpassed, hpercent⟩ := check_share_spec hbasis hm hr
    unfold percentOfQuota at hpercent
    refine ⟨passed, hmem, hpoints, hpassed, fun hz => ?_, fun hz => ?_⟩
    · rw [if_pos hz] at hpercent
      exact (Except.ok.inj hpercent).symm
    · rwa [hz] at hpercent
  · refine check_of_same_last hbasis hm hr hlabelled fun key max hmax => ?_
    obtain ⟨a, ha, hkey, -⟩ := maximum?_isSome hmax
    exact hsame a ha key hkey

end Build

/-- A draft and a superseded entry make no difference. -/
theorem check_share_superseded :
    ∃ rule r, build .share (.share Sample.header (Sample.terms 50 .normal .up))
        Sample.assignments = .ok rule ∧
      (rule.check [Sample.assessment "u" "a1" (.int 7)]).result = .ok r ∧
      (rule.check [Sample.assessment "u" "a1" (.int 2), Sample.assessment "u" "b1" (.int 9),
        Sample.assessment "u" "a1" (.int 7), Sample.assessment "u" "a2" .null,
        { Sample.assessment "u" "a1" (.int 1) with isDraft := .bool true }]).result = .ok r := by
  have hruns : (do
      let rule ← build .share (.share Sample.header (Sample.terms 50 .normal .up))
        Sample.assignments
      let r ← (rule.check [Sample.assessment "u" "a1" (.int 7)]).result
      return (rule, r)).isOk = true := by decide +kernel
  obtain ⟨_, hruns⟩ := exists_of_isOk hruns
  obtain ⟨rule, hrule, hruns⟩ := bind_eq_ok.mp hruns
  obtain ⟨r, hr, -⟩ := bind_eq_ok.mp hruns
  obtain ⟨rounder, quota, -, -, -, hlast, -⟩ := check_share hrule
  refine ⟨rule, r, hrule, hr, hlast _ _ r hr ?_ ?_⟩
  · intro b hb
    simp only [List.mem_cons, List.not_mem_nil, or_false] at hb
    rcases hb with rfl | rfl | rfl | rfl | rfl <;> exact .inr ⟨_, rfl⟩
  · intro a ha key hkey
    replace ha := (mem_assignmentsOfType.mp ha).1
    simp only [Sample.assignments, List.mem_cons, List.not_mem_nil, or_false] at ha
    rcases ha with rfl | rfl <;> cases hkey <;> decide +kernel

end Rule

end ExamAdmission
