import ExamAdmission.Proofs.Policy.FirstRefusal
import ExamAdmission.Proofs.Rule.Counting

/-! Policies put one after the other. Rules, results and refusals are those of the parts, only the
index of a refusal in the second part is counted from the beginning of the first. -/

namespace ExamAdmission

namespace Policy

variable {registry : Registry} {assignments : List Assignment} {configs : List Value}
  {rules : List Rule} {e : Fault} {cause : ConfigError}

/-- The rules of a list of configurations, or the reason for which there are none. -/
def rulesOf (registry : Registry) (assignments : List Assignment) (configs : List Value) :
    Except Fault (List Rule) :=
  (listRules registry assignments (ofConfigs configs)).result

theorem rulesOf_eq_ok : rulesOf registry assignments configs = .ok rules ↔
    Builds registry assignments configs rules := listRules_eq_ok rfl

theorem rulesOf_eq_error : rulesOf registry assignments configs = .error e ↔
    ∃ index cause, FirstRefused registry assignments configs index cause ∧
      e = atIndex index cause := listRules_eq_error rfl

theorem rulesOf_eq_config (h : rulesOf registry assignments configs = .error (.config cause)) :
    ∃ index inner, cause = .atIndex index inner ∧
      FirstRefused registry assignments configs index (.config inner) := by
  obtain ⟨index, e, hrefused, he⟩ := rulesOf_eq_error.mp h
  cases e with
  | config inner => exact ⟨index, inner, Fault.config.inj he, hrefused⟩
  | _ => cases he

theorem atIndex_of_ne_config {index index' : ℕ} (h : ∀ cause, atIndex index e ≠ .config cause) :
    atIndex index' e = atIndex index e := by
  cases e with
  | config inner => exact absurd rfl (h (.atIndex index inner))
  | _ => rfl

section Append

variable {P Q : List Value} {rs : List Rule}

theorem rulesOf_append : rulesOf registry assignments (P ++ Q) = .ok rules ↔
    ∃ rs ss, rulesOf registry assignments P = .ok rs ∧ rulesOf registry assignments Q = .ok ss ∧
      rules = rs ++ ss := by
  simp only [rulesOf_eq_ok, builds_append]

theorem rulesOf_append_of_error (h : rulesOf registry assignments P = .error e) :
    rulesOf registry assignments (P ++ Q) = .error e := by
  obtain ⟨index, cause, hrefused, rfl⟩ := rulesOf_eq_error.mp h
  exact rulesOf_eq_error.mpr ⟨index, cause, hrefused.append_right Q, rfl⟩

theorem rulesOf_append_of_ok (hP : rulesOf registry assignments P = .ok rs) {index : ℕ}
    (hQ : FirstRefused registry assignments Q index e) :
    rulesOf registry assignments (P ++ Q) = .error (atIndex (P.length + index) e) :=
  rulesOf_eq_error.mpr ⟨_, e, hQ.append_left (rulesOf_eq_ok.mp hP), rfl⟩

end Append

end Policy

namespace AdmissionStatus

variable (s t : AdmissionStatus)

/-- The status by the rules of both. -/
def and : AdmissionStatus := ⟨s.hasAdmission && t.hasAdmission, s.results ++ t.results⟩

theorem failedRules_and : (s.and t).failedRules = s.failedRules ++ t.failedRules :=
  List.filter_append ..

end AdmissionStatus

namespace Engine

open Policy (rulesOf ofConfigs FirstRefused)

variable {registry : Registry} {assignments : List Assignment}

theorem ofPolicy_eq_ok {document : Value} {engine : Engine} :
    (ofPolicy registry assignments document).result = .ok engine ↔
      (Policy.listRules registry assignments document).result = .ok engine.rules := by
  simp only [ofPolicy, Run.bind_result_eq_ok, Run.pure_result, Except.ok.injEq]
  constructor
  · rintro ⟨rules, hrules, rfl⟩
    exact hrules
  · intro hrules
    exact ⟨engine.rules, hrules, rfl⟩

theorem exists_of_ofPolicy {document : Value} {engine : Engine}
    (h : (ofPolicy registry assignments document).result = .ok engine) :
    ∃ configs, Policy.configs? document = some configs ∧ ∀ rule ∈ engine.rules,
      ∃ source ∈ configs, (registry.build assignments source).result = .ok rule := by
  have hrules := ofPolicy_eq_ok.mp h
  cases hconfigs : Policy.configs? document with
  | none =>
    rw [Policy.listRules, hconfigs] at hrules
    cases hrules
  | some configs =>
    refine ⟨configs, rfl, fun rule hrule => ?_⟩
    obtain ⟨source, hsource, hbuild⟩ :=
      exists_of_forall₂ ((Policy.listRules_eq_ok hconfigs).mp hrules) hrule
    exact ⟨source, hsource, hbuild⟩

theorem evaluate_append {rs ss : List Rule} {assessments : List Assessment}
    {status : AdmissionStatus} :
    ((⟨rs ++ ss⟩ : Engine).evaluate assessments).result = .ok status ↔
      ∃ s t, ((⟨rs⟩ : Engine).evaluate assessments).result = .ok s ∧
        ((⟨ss⟩ : Engine).evaluate assessments).result = .ok t ∧ status = s.and t := by
  simp only [evaluate_eq_ok, forall₂_append_left_iff]
  constructor
  · rintro ⟨hadm, results, results', hr, hr', hall⟩
    refine ⟨.ofResults results, .ofResults results', ⟨rfl, hr⟩, ⟨rfl, hr'⟩, ?_⟩
    obtain ⟨admitted, all⟩ := status
    obtain rfl : all = results ++ results' := hall
    rw [AdmissionStatus.and, AdmissionStatus.mk.injEq]
    exact ⟨hadm.trans List.all_append, rfl⟩
  · rintro ⟨s, t, ⟨hs, hr⟩, ⟨ht, hr'⟩, rfl⟩
    exact ⟨by simp [AdmissionStatus.and, hs, ht], s.results, t.results, hr, hr', rfl⟩

/-- Policies compose: a policy with the configurations of two has the rules of the first and then
those of the second, or the first refusal of them, and its engine gives the results of both. -/
theorem policies_compose (registry : Registry) (assignments : List Assignment) (P Q : List Value) :
    (∀ rules, rulesOf registry assignments (P ++ Q) = .ok rules ↔
      ∃ rs ss, rulesOf registry assignments P = .ok rs ∧ rulesOf registry assignments Q = .ok ss ∧
        rules = rs ++ ss) ∧
    (∀ e, rulesOf registry assignments P = .error e →
      rulesOf registry assignments (P ++ Q) = .error e) ∧
    (∀ rs cause, rulesOf registry assignments P = .ok rs →
      rulesOf registry assignments Q = .error (.config cause) →
      ∃ j inner, cause = .atIndex j inner ∧
        rulesOf registry assignments (P ++ Q) =
          .error (.config (.atIndex (P.length + j) inner)) ∧
        (ConfigError.atIndex (P.length + j) inner).message =
          "rules[" ++ toString (P.length + j) ++ "]: " ++ inner.message ∧
        (ConfigError.atIndex (P.length + j) inner).details =
          ("index", .value (.int (P.length + j))) :: cause.details.tail ∧
        cause.message = "rules[" ++ toString j ++ "]: " ++ inner.message ∧
        cause.details.head? = some ("index", .value (.int j))) ∧
    (∀ rs e, rulesOf registry assignments P = .ok rs → rulesOf registry assignments Q = .error e →
      (∀ cause, e ≠ .config cause) → rulesOf registry assignments (P ++ Q) = .error e) ∧
    (∀ configs cause, rulesOf registry assignments configs = .error (.config cause) →
      ∃ index inner, cause = .atIndex index inner ∧
        FirstRefused registry assignments configs index (.config inner)) ∧
    (∀ p q, (ofPolicy registry assignments (ofConfigs P)).result = .ok p →
      (ofPolicy registry assignments (ofConfigs Q)).result = .ok q →
      ∃ engine, (ofPolicy registry assignments (ofConfigs (P ++ Q))).result = .ok engine ∧
        ∀ assessments status, (engine.evaluate assessments).result = .ok status →
          ∃ s t, (p.evaluate assessments).result = .ok s ∧
            (q.evaluate assessments).result = .ok t ∧
            status.results = s.results ++ t.results ∧
            status.failedRules = s.failedRules ++ t.failedRules ∧
            status.hasAdmission = (s.hasAdmission && t.hasAdmission)) ∧
    ∃ engine, (ofPolicy registry assignments (ofConfigs [])).result = .ok engine ∧
      ∀ assessments, (engine.evaluate assessments).result = .ok ⟨true, []⟩ := by
  refine ⟨fun rules => Policy.rulesOf_append, fun e => Policy.rulesOf_append_of_error,
    fun rs cause hP hQ => ?_, fun rs e hP hQ hne => ?_,
    fun configs cause => Policy.rulesOf_eq_config, fun p q hp hq => ?_, ⟨[]⟩, rfl, fun _ => rfl⟩
  · obtain ⟨j, inner, rfl, hrefused⟩ := Policy.rulesOf_eq_config hQ
    exact ⟨j, inner, rfl, Policy.rulesOf_append_of_ok hP hrefused, rfl, rfl, rfl, rfl⟩
  · obtain ⟨index, e, hrefused, rfl⟩ := Policy.rulesOf_eq_error.mp hQ
    rw [Policy.rulesOf_append_of_ok hP hrefused, Policy.atIndex_of_ne_config hne]
  · have hrules := Policy.rulesOf_append.mpr
      ⟨p.rules, q.rules, ofPolicy_eq_ok.mp hp, ofPolicy_eq_ok.mp hq, rfl⟩
    refine ⟨⟨p.rules ++ q.rules⟩, ofPolicy_eq_ok.mpr hrules, fun assessments status h => ?_⟩
    obtain ⟨s, t, hs, ht, rfl⟩ := evaluate_append.mp h
    exact ⟨s, t, hs, ht, rfl, s.failedRules_and t, rfl⟩

/-- After two rules and one more, a configuration that is no mapping is refused at index 3. -/
theorem policies_compose_no_mapping :
    ∃ rs,
      rulesOf .standard Sample.assignments [Sample.shareConfig (Sample.rounding "normal" 2),
        Sample.overallConfig 60 (Sample.rounding "up" 1)] = .ok rs ∧
      rulesOf .standard Sample.assignments
        [Sample.overallConfig 50 (Sample.rounding "none" 0), .list []] =
          .error (.config (.atIndex 1 (.ruleNotMapping (.list [])))) ∧
      rulesOf .standard Sample.assignments ([Sample.shareConfig (Sample.rounding "normal" 2),
        Sample.overallConfig 60 (Sample.rounding "up" 1)] ++
          [Sample.overallConfig 50 (Sample.rounding "none" 0), .list []]) =
          .error (.config (.atIndex 3 (.ruleNotMapping (.list [])))) := by
  have hfirst : (rulesOf .standard Sample.assignments
      [Sample.shareConfig (Sample.rounding "normal" 2),
        Sample.overallConfig 60 (Sample.rounding "up" 1)]).isOk = true := by
    have hpolicy : ofConfigs [Sample.shareConfig (Sample.rounding "normal" 2),
        Sample.overallConfig 60 (Sample.rounding "up" 1)] = Sample.policy := rfl
    rw [rulesOf, hpolicy, Sample.listRules_policy]
    decide +kernel
  have hbuilds : (Registry.standard.build Sample.assignments
      (Sample.overallConfig 50 (Sample.rounding "none" 0))).result.isOk = true := by
    have hparse : Registry.standard.parse (.document (Sample.overallConfig 50
        (Sample.rounding "none" 0))) = .ok _ :=
      Sample.parse_overallConfig ⟨.none, 0⟩ Sample.percent_fifty
    rw [Registry.build_of_parse _ hparse]
    decide +kernel
  obtain ⟨rs, hrs⟩ := exists_of_isOk hfirst
  obtain ⟨rule, hrule⟩ := exists_of_isOk hbuilds
  have hsecond := Policy.rulesOf_eq_error.mpr
    ⟨1, _, ⟨[_], .list [], [], [rule], rfl, rfl, .cons hrule .nil, rfl⟩, rfl⟩
  obtain ⟨_, _, ⟨⟩, hboth, -⟩ :=
    (policies_compose .standard Sample.assignments _ _).2.2.1 rs _ hrs hsecond
  exact ⟨rs, hrs, hsecond, hboth⟩

end Engine

end ExamAdmission
