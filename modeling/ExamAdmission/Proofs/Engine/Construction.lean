import ExamAdmission.Proofs.Engine.Composition
import ExamAdmission.Proofs.Rule.Refusals

/-! What becomes of a policy document: an engine with a rule for each configuration, or a refusal
that names the first configuration without a rule. Only decimals that are too many for decimal
arithmetic are not refused as a configuration. -/

namespace ExamAdmission

namespace Engine

open Policy (ofConfigs Builds FirstRefused)

variable {course : List Value} {assignments : List Assignment} {document : Value}
  {configs : List Value} {e : Fault}

theorem ofPolicy_eq_error {registry : Registry} :
    (ofPolicy registry assignments document).result = .error e ↔
      (Policy.listRules registry assignments document).result = .error e := by
  simp [ofPolicy, Run.bind_result_eq_error]

theorem ofPolicy_of_no_rules (h : Policy.configs? document = none) :
    (ofPolicy .standard assignments document).result = .error (.config .noRulesList) := by
  rw [ofPolicy_eq_error, Policy.listRules, h]
  rfl

/-- A configuration that is too precise, after others that have rules. -/
def OverpreciseFirst (assignments : List Assignment) (configs : List Value) : Prop :=
  ∃ before source after rules config, configs = before ++ source :: after ∧
    Builds .standard assignments before rules ∧
    Registry.standard.parse (.document source) = .ok config ∧ config.Overprecise assignments

theorem overpreciseFirst_iff (hplain : ∀ a ∈ assignments, a.Plain) :
    OverpreciseFirst assignments configs ↔
      ∃ index, FirstRefused .standard assignments configs index (.arithmetic .invalidOperation) := by
  constructor
  · rintro ⟨before, source, after, rules, config, hsplit, hbefore, hparse, hover⟩
    exact ⟨before.length, before, source, after, rules, hsplit, rfl, hbefore,
      (Registry.build_eq_invalidOperation_iff hplain).mpr ⟨config, hparse, hover⟩⟩
  · rintro ⟨index, before, source, after, rules, hsplit, -, hbefore, herror⟩
    obtain ⟨config, hparse, hover⟩ := (Registry.build_eq_invalidOperation_iff hplain).mp herror
    exact ⟨before, source, after, rules, config, hsplit, hbefore, hparse, hover⟩

theorem ofPolicy_eq_invalidOperation_iff (hplain : ∀ a ∈ assignments, a.Plain)
    (hconfigs : Policy.configs? document = some configs) :
    (ofPolicy .standard assignments document).result = .error (.arithmetic .invalidOperation) ↔
      OverpreciseFirst assignments configs := by
  rw [ofPolicy_eq_error, Policy.listRules_eq_error hconfigs, overpreciseFirst_iff hplain]
  constructor
  · rintro ⟨index, cause, hrefused, he⟩
    -- only a configuration error is changed by its index
    cases cause with
    | config _ => cases he
    | arithmetic _ =>
      cases he
      exact ⟨index, hrefused⟩
    | _ => cases he
  · rintro ⟨index, hrefused⟩
    exact ⟨index, _, hrefused, rfl⟩

def Sample.catalog : List Value :=
  [.object [("id", .text "a1"), ("courseId", .text "c"), ("type", .text "HOMEWORK"),
    ("points", .int 10)]]

def Sample.preciseQuota : Value :=
  .object [("type", .text shareType), ("assignment_type", .text "HOMEWORK"),
    ("passed_assignments_percent", .int 100),
    ("passed_assignments_rounding", Sample.rounding "normal" 30),
    ("required_percent", .int 50), ("achieved_percent_rounding", Sample.rounding "none" 0)]

/-- Construction has one of three outcomes: an engine with a rule for each configuration, a
configuration error with the index of the first one that cannot be built, or, where that one is too
precise, a fault of decimal arithmetic. Up to 12 decimals are too precise for no course. -/
theorem ofPolicy_outcome (hread : course.mapM Assignment.read = .ok assignments)
    (document : Value) :
    (Policy.configs? document = none →
      (ofPolicy .standard assignments document).result = .error (.config .noRulesList)) ∧
    ∀ configs, Policy.configs? document = some configs →
      ((∃ engine, (ofPolicy .standard assignments document).result = .ok engine ∧
          engine.rules.length = configs.length) ∨
        (∃ index cause, FirstRefused .standard assignments configs index (.config cause) ∧
          (ofPolicy .standard assignments document).result =
            .error (.config (.atIndex index cause))) ∨
        (ofPolicy .standard assignments document).result =
          .error (.arithmetic .invalidOperation)) ∧
      ((ofPolicy .standard assignments document).result = .error (.arithmetic .invalidOperation) ↔
        OverpreciseFirst assignments configs) ∧
      (assignments.length ≤ 10 ^ 15 →
        (∀ source ∈ configs, ∀ config, Registry.standard.parse (.document source) = .ok config →
          config.UpTo 12) → ¬ OverpreciseFirst assignments configs) := by
  have hplain := Assignment.plain_of_mapM hread
  refine ⟨ofPolicy_of_no_rules, fun configs hconfigs => ⟨?_,
    ofPolicy_eq_invalidOperation_iff hplain hconfigs, fun hcount hup => ?_⟩⟩
  · cases hresult : (ofPolicy .standard assignments document).result with
    | ok engine =>
      have hbuilds := (Policy.listRules_eq_ok hconfigs).mp (ofPolicy_eq_ok.mp hresult)
      exact .inl ⟨engine, rfl, (List.Forall₂.length_eq hbuilds).symm⟩
    | error e =>
      obtain ⟨index, cause, hrefused, rfl⟩ :=
        (Policy.listRules_eq_error hconfigs).mp (ofPolicy_eq_error.mp hresult)
      have hbuild : ∃ source,
          (Registry.standard.build assignments source).result = .error cause := by
        obtain ⟨_, source, _, _, -, -, -, hbuild⟩ := hrefused
        exact ⟨source, hbuild⟩
      obtain ⟨source, hbuild⟩ := hbuild
      rcases Registry.build_eq_error hplain hbuild with ⟨inner, rfl⟩ | ⟨rfl, -⟩
      · exact .inr (.inl ⟨index, inner, hrefused, rfl⟩)
      · exact .inr (.inr rfl)
  · rintro ⟨before, source, after, rules, config, rfl, -, hparse, hover⟩
    exact RuleConfig.not_overprecise (RuleConfig.inRange_parse hparse)
      (hup source (by simp) config hparse) hcount hover

/-- A quota of 30 decimals is a fault of decimal arithmetic. -/
theorem ofPolicy_outcome_thirty_decimals :
    ∃ assignments, Sample.catalog.mapM Assignment.read = .ok assignments ∧
      (ofPolicy .standard assignments (ofConfigs [Sample.preciseQuota])).result =
        .error (.arithmetic .invalidOperation) ∧
      OverpreciseFirst assignments [Sample.preciseQuota] := by
  have hread : (Sample.catalog.mapM Assignment.read).isOk = true := by decide +kernel
  have hfails : failsWith (fun e => e.message?.isNone) (do
      let assignments ← Sample.catalog.mapM Assignment.read
      (ofPolicy .standard assignments (ofConfigs [Sample.preciseQuota])).result) = true := by
    decide +kernel
  obtain ⟨assignments, hread⟩ := exists_of_isOk hread
  obtain ⟨e, he, hkind⟩ := exists_of_failsWith hfails
  rcases bind_eq_error.mp he with hnone | ⟨_, hread', hresult⟩
  · cases hread.symm.trans hnone
  cases hread.symm.trans hread'
  obtain ⟨houtcome, hiff, -⟩ :=
    (ofPolicy_outcome hread (ofConfigs [Sample.preciseQuota])).2 [Sample.preciseQuota] rfl
  have hinvalid : (ofPolicy .standard assignments (ofConfigs [Sample.preciseQuota])).result =
      .error (.arithmetic .invalidOperation) := by
    rcases houtcome with ⟨engine, hok, -⟩ | ⟨index, cause, -, hconfig⟩ | hinvalid
    · cases hresult.symm.trans hok
    · cases hresult.symm.trans hconfig
      cases hkind
    · exact hinvalid
  exact ⟨assignments, hread, hinvalid, hiff.mp hinvalid⟩

end Engine

end ExamAdmission
