import ExamAdmission.Policy
import ExamAdmission.Proofs.Outcome

/-! The rules of a policy, or the first configuration that has none. What comes after it is not
looked at, and a configuration error is given its index. -/

namespace ExamAdmission

namespace Policy

variable {registry : Registry} {assignments : List Assignment} {configs configs' : List Value}
  {document : Value} {rules : List Rule} {index : ℕ} {e : Fault}

/-- The policy document of some configurations. -/
def ofConfigs (configs : List Value) : Value := .object [("rules", .list configs)]

/-- Rules for the configurations of a list, one for each. -/
def Builds (registry : Registry) (assignments : List Assignment) (configs : List Value)
    (rules : List Rule) : Prop :=
  List.Forall₂ (fun config rule => (registry.build assignments config).result = .ok rule) configs
    rules

/-- The configuration at an index is refused, and all before it have rules. -/
def FirstRefused (registry : Registry) (assignments : List Assignment) (configs : List Value)
    (index : ℕ) (e : Fault) : Prop :=
  ∃ before config after rules, configs = before ++ config :: after ∧ before.length = index ∧
    Builds registry assignments before rules ∧
    (registry.build assignments config).result = .error e

theorem buildFrom_eq_ok :
    (buildFrom registry assignments index configs).result = .ok rules ↔
      Builds registry assignments configs rules := by
  unfold Builds
  induction configs generalizing index rules with
  | nil => cases rules <;> simp [buildFrom]
  | cons config rest ih =>
    simp only [buildFrom, Run.bind_result_eq_ok, Run.mapFault_result_eq_ok, ih, Run.pure_result,
      Except.ok.injEq, List.forall₂_cons_left_iff]
    constructor
    · rintro ⟨rule, hrule, others, ho, rfl⟩
      exact ⟨rule, others, hrule, ho, rfl⟩
    · rintro ⟨rule, others, hrule, ho, rfl⟩
      exact ⟨rule, hrule, others, ho, rfl⟩

theorem firstRefused_nil : ¬ FirstRefused registry assignments [] index e := by
  rintro ⟨before, config, after, -, hsplit, -⟩
  cases before <;> cases hsplit

theorem firstRefused_cons {config : Value} :
    FirstRefused registry assignments (config :: configs) index e ↔
      (index = 0 ∧ (registry.build assignments config).result = .error e) ∨
        ∃ rule place, (registry.build assignments config).result = .ok rule ∧ index = place + 1 ∧
          FirstRefused registry assignments configs place e := by
  constructor
  · rintro ⟨before, refused, after, rules, hsplit, rfl, hbefore, he⟩
    cases hbefore with
    | nil =>
      obtain ⟨rfl, rfl⟩ := List.cons.inj hsplit
      exact .inl ⟨rfl, he⟩
    | @cons first rule rest rules hfirst hrest =>
      obtain ⟨rfl, rfl⟩ := List.cons.inj hsplit
      exact .inr ⟨rule, rest.length, hfirst, rfl, rest, refused, after, rules, rfl, rfl, hrest, he⟩
  · rintro (⟨rfl, he⟩ | ⟨rule, _, hrule, rfl, before, refused, after, rules, rfl, rfl, hbefore, he⟩)
    · exact ⟨[], config, configs, [], rfl, rfl, .nil, he⟩
    · exact ⟨config :: before, refused, after, rule :: rules, rfl, rfl, .cons hrule hbefore, he⟩

theorem buildFrom_eq_error :
    (buildFrom registry assignments index configs).result = .error e ↔
      ∃ place cause, FirstRefused registry assignments configs place cause ∧
        e = atIndex (index + place) cause := by
  induction configs generalizing index with
  | nil => simp [buildFrom, firstRefused_nil]
  | cons config rest ih =>
    simp only [buildFrom, Run.bind_result_eq_error, Run.mapFault_result_eq_error,
      Run.mapFault_result_eq_ok, ih, Run.pure_result, firstRefused_cons]
    constructor
    · rintro (⟨cause, hcause, rfl⟩ | ⟨rule, hrule, ⟨place, cause, hrefused, rfl⟩ | ⟨_, _, ⟨⟩⟩⟩)
      · exact ⟨0, cause, .inl ⟨rfl, hcause⟩, rfl⟩
      · exact ⟨place + 1, cause, .inr ⟨rule, place, hrule, rfl, hrefused⟩, by
          rw [Nat.add_comm place, Nat.add_assoc]⟩
    · rintro ⟨_, cause, ⟨rfl, hcause⟩ | ⟨rule, place, hrule, rfl, hrefused⟩, rfl⟩
      · exact .inl ⟨cause, hcause, rfl⟩
      · exact .inr ⟨rule, hrule, .inl ⟨place, cause, hrefused, by
          rw [Nat.add_comm place, Nat.add_assoc]⟩⟩

theorem listRules_eq_ok (h : configs? document = some configs) :
    (listRules registry assignments document).result = .ok rules ↔
      Builds registry assignments configs rules := by
  rw [listRules, h]
  exact buildFrom_eq_ok

theorem listRules_eq_error (h : configs? document = some configs) :
    (listRules registry assignments document).result = .error e ↔
      ∃ index cause, FirstRefused registry assignments configs index cause ∧
        e = atIndex index cause := by
  have hfrom := @buildFrom_eq_error registry assignments configs 0 e
  rw [listRules, h]
  simpa only [Nat.zero_add] using hfrom

theorem builds_append : Builds registry assignments (configs ++ configs') rules ↔
    ∃ rs ss, Builds registry assignments configs rs ∧ Builds registry assignments configs' ss ∧
      rules = rs ++ ss := forall₂_append_left_iff

theorem FirstRefused.append_right (h : FirstRefused registry assignments configs index e)
    (configs' : List Value) : FirstRefused registry assignments (configs ++ configs') index e := by
  obtain ⟨before, config, after, rules, rfl, hlength, hbefore, he⟩ := h
  exact ⟨before, config, after ++ configs', rules, by simp, hlength, hbefore, he⟩

theorem FirstRefused.append_left (h : FirstRefused registry assignments configs' index e)
    (hbuilds : Builds registry assignments configs rules) :
    FirstRefused registry assignments (configs ++ configs') (configs.length + index) e := by
  obtain ⟨before, config, after, others, rfl, rfl, hbefore, he⟩ := h
  exact ⟨configs ++ before, config, after, rules ++ others, by simp, by simp,
    builds_append.mpr ⟨_, _, hbuilds, hbefore, rfl⟩, he⟩

end Policy

end ExamAdmission
