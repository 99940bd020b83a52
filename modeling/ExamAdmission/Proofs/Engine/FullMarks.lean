import ExamAdmission.Proofs.Engine.Composition
import ExamAdmission.Proofs.Rule.FullMarks
import ExamAdmission.Proofs.Rule.Refusals

/-! Full marks give the admission. No policy of at most 25 decimals asks for more than a course of
whole points has to give. -/

namespace ExamAdmission

attribute [local irreducible] rangeEnd Binary64.unit

/-- A policy of which no configuration rounds achieved percents to more than 25 decimals. -/
def Policy.Fits (document : Value) : Prop :=
  ∀ configs, configs? document = some configs → ∀ source ∈ configs, ∀ config,
    Registry.standard.parse (.document source) = .ok config → config.Fits

section

variable {assignments : List Assignment} {document : Value} {rule : Rule}

theorem Rule.measure_ne_nothing {which : RuleClass} {config : RuleConfig} (hwhich : which ≠ .base)
    (h : build which config assignments = .ok rule) : rule.measure ≠ .nothing := by
  cases which with
  | base => exact absurd rfl hwhich
  | share =>
    obtain ⟨_, _, _, _, -, -, -, -, -, hm⟩ := build_share_eq_ok h
    exact fun hnothing => nomatch hm.symm.trans hnothing
  | overall =>
    obtain ⟨_, _, _, -, -, -, -, hm⟩ := build_overall_eq_ok h
    exact fun hnothing => nomatch hm.symm.trans hnothing

theorem Registry.ne_base_of_find?_rules {key : Key} {which : RuleClass}
    (h : standard.rules.find? key = some which) : which ≠ .base := by
  rintro rfl
  have hmem := Table.mem_values_of_find? h
  simp [standard, Table.values] at hmem

/-- A rule of the standard registry always measures something. -/
theorem Registry.exists_of_standard_build
    (h : (standard.build assignments document).result = .ok rule) :
    ∃ which config, standard.parse (.document document) = .ok config ∧
      Rule.build which config assignments = .ok rule ∧ rule.measure ≠ .nothing := by
  obtain ⟨which, config, hparse, hwhich, hbuild⟩ := exists_of_build h
  exact ⟨which, config, hparse, hbuild,
    Rule.measure_ne_nothing (ne_base_of_find?_rules hwhich) hbuild⟩

namespace Engine

variable {engine : Engine}

theorem exists_admission {A : List Assessment}
    (h : ∀ rule ∈ engine.rules, ∃ r, (rule.check A).result = .ok r ∧ r.passed = true) :
    ∃ status, (engine.evaluate A).result = .ok status ∧ status.hasAdmission = true := by
  obtain ⟨results, hresults⟩ := exists_mapM fun rule hrule => (h rule hrule).imp fun _ hr => hr.1
  have hchecks := mapM_eq_ok.mp hresults
  have hpassed : results.all CheckResult.passed = true := by
    refine List.all_eq_true.mpr fun r hr => ?_
    obtain ⟨rule, hrule, hcheck⟩ := exists_of_forall₂ hchecks hr
    obtain ⟨r', hcheck', hpass⟩ := h rule hrule
    cases hcheck.symm.trans hcheck'
    exact hpass
  exact ⟨⟨true, results⟩, evaluate_eq_ok.mpr ⟨hpassed.symm, hchecks⟩, rfl⟩

/-- Who has all points of every assignment is admitted by every policy, whatever it asks for. In
particular no rule asks for more passed assignments than there are. -/
theorem evaluate_full_marks (hcourse : WholeCourse assignments) (hfits : Policy.Fits document)
    (h : (ofPolicy .standard assignments document).result = .ok engine) :
    (∀ A, (∀ a ∈ A, a.Labelled) → FullMarks assignments A →
      ∃ status, (engine.evaluate A).result = .ok status ∧ status.hasAdmission = true) ∧
    ∀ rule ∈ engine.rules, ∀ rounder required quota,
      rule.measure = .share rounder required quota →
      .int 0 ≤ Number.float quota ∧ Number.float quota ≤ .int rule.basis.relevant.length := by
  obtain ⟨configs, hconfigs, hrules⟩ := exists_of_ofPolicy h
  refine ⟨fun A hlabelled hfull => exists_admission fun rule hrule => ?_,
    fun rule hrule rounder required quota hm => ?_⟩
  · obtain ⟨source, hsource, hbuild⟩ := hrules rule hrule
    obtain ⟨which, config, hparse, hrule, hmeasure⟩ := Registry.exists_of_standard_build hbuild
    exact Rule.exists_check_full hcourse (RuleConfig.inRange_parse hparse)
      (hfits configs hconfigs source hsource config hparse) hrule hmeasure hlabelled hfull
  · obtain ⟨source, -, hbuild⟩ := hrules rule hrule
    obtain ⟨which, config, hparse, hrule, -⟩ := Registry.exists_of_standard_build hbuild
    exact Rule.quota_bounds hcourse (RuleConfig.inRange_parse hparse) hrule hm

end Engine

end

namespace Sample

theorem wholeCourse_assignments : WholeCourse assignments where
  grid := Value.onGrid_ints [10, 20] (by decide)
  few := by decide
  distinct := by decide

/-- All points, after a first attempt and beside a draft and an entry for no assignment. -/
def fullMarks : List Assessment :=
  [assessment "u" "b1" (.int 1), assessment "u" "a1" (.int 3), assessment "u" "a2" (.int 20),
    assessment "u" "a1" (.int 10), { assessment "u" "a2" .null with isDraft := .bool true }]

end Sample

theorem Engine.evaluate_full_marks_second_attempt :
    ∃ engine status, (ofPolicy .standard Sample.assignments Sample.policy).result = .ok engine ∧
      (engine.evaluate Sample.fullMarks).result = .ok status ∧ status.hasAdmission = true := by
  have hruns : (ofPolicy .standard Sample.assignments Sample.policy).result.isOk = true := by
    rw [Sample.ofPolicy_policy]
    decide +kernel
  obtain ⟨engine, hengine⟩ := exists_of_isOk hruns
  have hfits : Policy.Fits Sample.policy := by
    intro configs hconfigs source hsource config hparse
    cases hconfigs
    rcases List.mem_pair.mp hsource with rfl | rfl
    · cases Sample.parse_share.symm.trans hparse
      decide
    · cases Sample.parse_overall.symm.trans hparse
      decide
  have hlabelled : ∀ a ∈ Sample.fullMarks, a.Labelled := by
    intro a ha
    simp only [Sample.fullMarks, List.mem_cons, List.not_mem_nil, or_false] at ha
    rcases ha with rfl | rfl | rfl | rfl | rfl <;> exact .inr ⟨_, rfl⟩
  have hfull : FullMarks Sample.assignments Sample.fullMarks := by
    intro a ha key hkey
    simp only [Sample.assignments, List.mem_cons, List.not_mem_nil, or_false] at ha
    rcases ha with rfl | rfl <;> cases hkey
    · exact ⟨Sample.assessment "u" "a1" (.int 10), rfl, by decide +kernel⟩
    · exact ⟨Sample.assessment "u" "a2" (.int 20), rfl, by decide +kernel⟩
  obtain ⟨status, hstatus, hadmitted⟩ :=
    (evaluate_full_marks Sample.wholeCourse_assignments hfits hengine).1 _ hlabelled hfull
  exact ⟨engine, status, hengine, hstatus, hadmitted⟩

end ExamAdmission
