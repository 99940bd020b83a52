import ExamAdmission.Engine
import ExamAdmission.Proofs.Config.NormalForm
import ExamAdmission.Proofs.Document.NumberOrder
import ExamAdmission.Proofs.Document.Tables
import ExamAdmission.Proofs.Outcome

/-! What counts in a check, assessment by assessment, and the verdicts of an engine rule by rule. -/

namespace ExamAdmission

attribute [local irreducible] rangeEnd Binary64.unit

/-- A draft may have any assignment; otherwise it must be one that can name something. -/
def Assessment.Labelled (a : Assessment) : Prop :=
  a.isDraft.holds = true ∨ ∃ key, a.assignmentId.key? = some key

section Share

variable {rounder : Rounder} {required : Binary64} {table maxPoints : Table Value}

theorem passesAssignment_eq_ok {key : Key} {max : Value} {b : Bool} :
    passesAssignment rounder required table key max = .ok b ↔
      ∃ p x, percentOf ((table.find? key).getD (.float (.zero false))) max = .ok p ∧
        rounder.round p = .ok x ∧ (Number.float required).le (.float x) = b := by
  simp only [passesAssignment, bind_eq_ok]
  constructor
  · rintro ⟨p, hp, x, hx, ⟨⟩⟩
    exact ⟨p, x, hp, hx, rfl⟩
  · rintro ⟨p, x, hp, hx, rfl⟩
    exact ⟨p, hp, x, hx, rfl⟩

/-- Whether an assignment is known to be passed. -/
def isPassed (rounder : Rounder) (required : Binary64) (table : Table Value)
    (e : Label × Value) : Bool :=
  match passesAssignment rounder required table e.1.key e.2 with
  | .ok passes => passes
  | .error _ => false

theorem isPassed_iff {e : Label × Value} : isPassed rounder required table e = true ↔
    passesAssignment rounder required table e.1.key e.2 = .ok true := by
  unfold isPassed
  split
  · rename_i b hb
    rw [hb, Except.ok.injEq]
  · rename_i hb
    simp [hb]

theorem passedAssignments_eq_ok {forms : List Value} :
    passedAssignments rounder required table maxPoints = .ok forms ↔
      (∀ e ∈ maxPoints, ∃ b, passesAssignment rounder required table e.1.key e.2 = .ok b) ∧
        forms = (maxPoints.filter (isPassed rounder required table)).map fun e => e.1.form := by
  induction maxPoints generalizing forms with
  | nil => simp [passedAssignments, eq_comm]
  | cons entry rest ih =>
    obtain ⟨label, points⟩ := entry
    simp only [passedAssignments, bind_eq_ok, ih, List.forall_mem_cons]
    constructor
    · rintro ⟨b, hb, _, ⟨hrest, rfl⟩, ⟨⟩⟩
      refine ⟨⟨⟨b, hb⟩, hrest⟩, ?_⟩
      cases b <;> simp [isPassed, hb]
    · rintro ⟨⟨⟨b, hb⟩, hrest⟩, rfl⟩
      refine ⟨b, hb, _, ⟨hrest, rfl⟩, ?_⟩
      cases b <;> simp [isPassed, hb, pure, Except.pure]

theorem length_passedAssignments_le {forms : List Value}
    (h : passedAssignments rounder required table maxPoints = .ok forms) :
    forms.length ≤ maxPoints.length := by
  obtain ⟨-, rfl⟩ := passedAssignments_eq_ok.mp h
  rw [List.length_map]
  exact List.length_filter_le _ _

end Share

namespace Rule

variable (rule : Rule)

/-- The label under which an assessment counts, if it does. -/
def label? (a : Assessment) : Option Label :=
  if a.isDraft.holds then none
  else match a.assignmentId.key? with
    | some key =>
      if key ∈ rule.basis.known ∧ key ∈ rule.basis.maxPoints.keys then some ⟨a.assignmentId, key⟩
      else none
    | none => none

/-- The entry that an assessment makes in the table of points, if it counts. -/
def contribution? (a : Assessment) : Option (Label × Value) :=
  (rule.label? a).map fun label => (label, a.achievedPoints.orZeroPoints)

variable {rule}

theorem counted_eq_ok {assessments : List Assessment} {entries : List (Label × Value)} :
    (rule.counted assessments).result = .ok entries ↔
      (∀ a ∈ assessments, a.Labelled) ∧ entries = assessments.filterMap rule.contribution? := by
  induction assessments generalizing entries with
  | nil => simp [counted, eq_comm]
  | cons a rest ih =>
    simp only [List.forall_mem_cons, List.filterMap_cons]
    by_cases hd : a.isDraft.holds
    · simp [counted, contribution?, label?, Assessment.Labelled, hd, ih]
    cases hk : a.assignmentId.key? with
    | none =>
      have hn : ¬ a.Labelled := by simp [Assessment.Labelled, hd, hk]
      simp [counted, hd, hn, Run.bind_result_eq_ok, Value.label, hk]
    | some key =>
      have hl : a.Labelled := .inr ⟨key, hk⟩
      simp only [counted, hd, Bool.false_eq_true, if_false, Run.bind_result_eq_ok, Run.of_result,
        Value.label, hk, Except.ok.injEq, exists_eq_left', hl, true_and, contribution?, label?]
      by_cases hknown : key ∈ rule.basis.known
      · by_cases hmax : key ∈ rule.basis.maxPoints.keys
        · simp only [hknown, hmax, not_true_eq_false, if_false, if_true, and_self, Option.map_some,
            Run.bind_result_eq_ok, ih, Run.pure_result, Except.ok.injEq]
          constructor
          · rintro ⟨_, ⟨hrest, rfl⟩, rfl⟩
            exact ⟨hrest, rfl⟩
          · rintro ⟨hrest, rfl⟩
            exact ⟨_, ⟨hrest, rfl⟩, rfl⟩
        · simp [hknown, hmax, Run.bind_result_eq_ok, ih]
      · simp [hknown, Run.bind_result_eq_ok, ih]

theorem label?_eq_some {a : Assessment} {label : Label} :
    rule.label? a = some label ↔ a.isDraft.holds = false ∧ a.assignmentId.key? = some label.key ∧
      label.form = a.assignmentId ∧ label.key ∈ rule.basis.known ∧
      label.key ∈ rule.basis.maxPoints.keys := by
  obtain ⟨form, key⟩ := label
  unfold label?
  cases hdraft : a.isDraft.holds with
  | true => simp
  | false =>
    cases hkey : a.assignmentId.key? with
    | none => simp
    | some other =>
      by_cases hin : other ∈ rule.basis.known ∧ other ∈ rule.basis.maxPoints.keys
      · simp only [Bool.false_eq_true, if_false, if_pos hin, Option.some.injEq, Label.mk.injEq]
        constructor
        · rintro ⟨rfl, rfl⟩
          exact ⟨trivial, rfl, rfl, hin⟩
        · rintro ⟨-, rfl, rfl, -⟩
          exact ⟨rfl, rfl⟩
      · simp only [Bool.false_eq_true, if_false, if_neg hin, Option.some.injEq]
        constructor
        · intro h
          cases h
        · rintro ⟨-, rfl, -, hkeys⟩
          exact absurd hkeys hin

theorem filter_contributions (A : List Assessment) (key : Key) :
    (A.filterMap rule.contribution?).filter (fun e => e.1.key = key) =
      (A.filter fun a => a.assignmentId.key? = some key).filterMap rule.contribution? := by
  rw [List.filter_filterMap, List.filterMap_filter]
  refine List.filterMap_congr fun a _ => ?_
  cases hl : rule.label? a with
  | none => simp [contribution?, hl]
  | some label =>
    have hkey := (label?_eq_some.mp hl).2.1
    by_cases h : label.key = key
    · simp [contribution?, hl, hkey, h]
    · simp [contribution?, hl, hkey, h]

theorem contributions_sublist (rule : Rule) (assessments : List Assessment) :
    ((assessments.filterMap rule.contribution?).map Prod.snd).Sublist
      (assessments.map fun a => a.achievedPoints.orZeroPoints) := by
  induction assessments with
  | nil => exact .slnil
  | cons a rest ih =>
    rw [List.filterMap_cons, List.map_cons]
    cases hl : rule.label? a with
    | none =>
      simp only [contribution?, hl, Option.map_none]
      exact ih.cons _
    | some label =>
      simp only [contribution?, hl, Option.map_some, List.map_cons]
      exact ih.cons_cons _

theorem check_of_measured (h : rule.measure ≠ .nothing) (assessments : List Assessment) :
    rule.check assessments = (do Run.of (rule.verdict (← rule.achieved assessments))) := by
  unfold check
  split
  · rename_i hm
    exact absurd hm h
  · rfl

theorem check_eq_ok {assessments : List Assessment} {r : CheckResult} :
    (rule.check assessments).result = .ok r ↔ (∀ a ∈ assessments, a.Labelled) ∧
      rule.verdict (Table.ofList (assessments.filterMap rule.contribution?)) = .ok r := by
  by_cases hm : rule.measure = .nothing
  · simp [check, verdict, hm, Run.fail]
  · simp [check_of_measured hm, achieved, Run.bind_result_eq_ok, counted_eq_ok]

theorem verdict_share_eq_ok {rounder : Rounder} {required quota : Binary64} {table : Table Value}
    {r : CheckResult} (hm : rule.measure = .share rounder required quota) :
    rule.verdict table = .ok r ↔ ∃ forms p,
      passedAssignments rounder required table rule.basis.maxPoints = .ok forms ∧
      percentOfQuota forms.length quota = .ok p ∧
      r = rule.result (.int forms.length) p ((Number.float quota).le (.int forms.length)) := by
  unfold verdict
  rw [hm]
  simp only [bind_eq_ok]
  constructor
  · rintro ⟨forms, hforms, p, hp, ⟨⟩⟩
    exact ⟨forms, p, hforms, hp, rfl⟩
  · rintro ⟨forms, p, hforms, hp, rfl⟩
    exact ⟨forms, hforms, p, hp, rfl⟩

theorem verdict_overall_eq_ok {rounder : Rounder} {required : Binary64} {total : Number}
    {table : Table Value} {r : CheckResult} (hm : rule.measure = .overall rounder required total) :
    rule.verdict table = .ok r ↔ ∃ s p, Value.sum table.values = .ok s ∧
      percentOfTotal rounder s total = .ok p ∧
      r = rule.result s.toValue p ((Number.float required).le (.float p)) := by
  unfold verdict
  rw [hm]
  simp only [bind_eq_ok]
  constructor
  · rintro ⟨s, hs, p, hp, ⟨⟩⟩
    exact ⟨s, p, hs, hp, rfl⟩
  · rintro ⟨s, p, hs, hp, rfl⟩
    exact ⟨s, hs, p, hp, rfl⟩

theorem verdict_nothing (hm : rule.measure = .nothing) (table : Table Value) :
    rule.verdict table = .error .missingAttribute := by
  rw [verdict, hm]

end Rule

namespace Engine

theorem checkAll_eq_ok {assessments : List Assessment} {rules : List Rule}
    {results : List CheckResult} :
    (checkAll assessments rules).result = .ok results ↔
      List.Forall₂ (fun rule r => (rule.check assessments).result = .ok r) rules results := by
  induction rules generalizing results with
  | nil => cases results <;> simp [checkAll]
  | cons rule rest ih =>
    simp only [checkAll, Run.bind_result_eq_ok, ih, Run.pure_result, Except.ok.injEq,
      List.forall₂_cons_left_iff]
    constructor
    · rintro ⟨r, hr, others, ho, rfl⟩
      exact ⟨r, others, hr, ho, rfl⟩
    · rintro ⟨r, others, hr, ho, rfl⟩
      exact ⟨r, hr, others, ho, rfl⟩

theorem evaluate_eq_ok {engine : Engine} {assessments : List Assessment}
    {status : AdmissionStatus} :
    (engine.evaluate assessments).result = .ok status ↔
      status.hasAdmission = status.results.all CheckResult.passed ∧
        List.Forall₂ (fun rule r => (rule.check assessments).result = .ok r) engine.rules
          status.results := by
  simp only [evaluate, Run.bind_result_eq_ok, checkAll_eq_ok, Run.pure_result, Except.ok.injEq]
  constructor
  · rintro ⟨results, h, rfl⟩
    exact ⟨rfl, h⟩
  · rintro ⟨hadm, h⟩
    exact ⟨_, h, by cases status; simp_all [AdmissionStatus.ofResults]⟩

end Engine

theorem Registry.build_of_parse {registry : Registry} {document : Value} {config : RuleConfig}
    (assignments : List Assignment) (h : registry.parse (.document document) = .ok config) :
    registry.build assignments document = registry.buildConfig assignments config := by
  rw [build, h]
  rfl

/-! A small course for single cases: two homeworks, and a policy with a rule of each kind. -/

namespace Sample

def assignments : List Assignment :=
  [⟨.text "a1", .text "c", .text "HOMEWORK", .int 10⟩,
   ⟨.text "a2", .text "c", .text "HOMEWORK", .int 20⟩]

theorem isFinite_assignments : ∀ a ∈ assignments, a.points.IsFinite :=
  List.forall_mem_cons.mpr ⟨Value.isFinite_int 10,
    List.forall_mem_singleton.mpr (Value.isFinite_int 20)⟩

def rounding (type : String) (decimals : ℤ) : Value :=
  .object [("type", .text type), ("decimals", .int decimals)]

def shareConfig (achievedRounding : Value) : Value :=
  .object [("type", .text shareType), ("assignment_type", .text "HOMEWORK"),
    ("passed_assignments_percent", .int 50), ("passed_assignments_rounding", rounding "normal" 0),
    ("required_percent", .int 50), ("achieved_percent_rounding", achievedRounding)]

def overallConfig (requiredPercent : ℤ) (achievedRounding : Value) : Value :=
  .object [("type", .text overallType), ("assignment_type", .text "HOMEWORK"),
    ("required_percent", .int requiredPercent), ("achieved_percent_rounding", achievedRounding)]

def policy : Value :=
  .object [("rules", .list [shareConfig (rounding "normal" 2), overallConfig 60 (rounding "up" 1)])]

def header : RuleHeader := ⟨shareType, "HOMEWORK", .error⟩

/-! What is read from the configurations. To compute it takes far longer than to build and check the
rules, so that runs of the sample policy start from here. -/

def fifty : Binary64 := .ofDecimal false 50 0

theorem percent_fifty : Field.percent (.int 50) = .ok fifty := eq_ok_of_any (by decide +kernel)

theorem parse_shareConfig (achieved : RoundingPolicy) :
    Registry.standard.parse (.document (shareConfig achieved.toValue)) =
      .ok (.share header ⟨fifty, ⟨.normal, 0⟩, fifty, achieved⟩) := by
  have hlower : lowerCase shareType = shareType := lowerCase_of_between (by decide)
  refine RuleConfig.parse_of_lower hlower rfl rfl (Checked.map_eq_ok.mpr ⟨(header, _, ()), ?_, rfl⟩)
  exact Checked.and_eq_ok.mpr ⟨rfl, Checked.and_eq_ok.mpr
    ⟨RuleConfig.shareTermsOf_of_field? rfl rfl rfl rfl percent_fifty percent_fifty, rfl⟩⟩

theorem parse_overallConfig (achieved : RoundingPolicy) {percent : ℤ} {required : Binary64}
    (h : Field.percent (.int percent) = .ok required) :
    Registry.standard.parse (.document (overallConfig percent achieved.toValue)) =
      .ok (.overall ⟨overallType, "HOMEWORK", .error⟩ ⟨required, achieved⟩) := by
  have hlower : lowerCase overallType = overallType := lowerCase_of_between (by decide)
  refine RuleConfig.parse_of_lower hlower rfl rfl (Checked.map_eq_ok.mpr ⟨(_, _, ()), ?_, rfl⟩)
  exact Checked.and_eq_ok.mpr ⟨rfl, Checked.and_eq_ok.mpr
    ⟨RuleConfig.overallTermsOf_of_field? rfl rfl h, rfl⟩⟩

def share : RuleConfig := .share header ⟨fifty, ⟨.normal, 0⟩, fifty, ⟨.normal, 2⟩⟩

def overall : RuleConfig :=
  .overall ⟨overallType, "HOMEWORK", .error⟩ ⟨.ofDecimal false 60 0, ⟨.up, 1⟩⟩

theorem parse_share :
    Registry.standard.parse (.document (shareConfig (rounding "normal" 2))) = .ok share :=
  parse_shareConfig ⟨.normal, 2⟩

theorem parse_overall :
    Registry.standard.parse (.document (overallConfig 60 (rounding "up" 1))) = .ok overall :=
  parse_overallConfig ⟨.up, 1⟩ (eq_ok_of_any (by decide +kernel))

def rulesFor (assignments : List Assignment) : Run (List Rule) := do
  let share ← (Registry.standard.buildConfig assignments share).mapFault (Policy.atIndex 0)
  let others ← (do
    let overall ← (Registry.standard.buildConfig assignments overall).mapFault (Policy.atIndex 1)
    return [overall])
  return share :: others

theorem listRules_policy (assignments : List Assignment) :
    Policy.listRules .standard assignments policy = rulesFor assignments := by
  have hshare := Registry.build_of_parse assignments parse_share
  have hoverall := Registry.build_of_parse assignments parse_overall
  show Policy.buildFrom .standard assignments 0
    [shareConfig (rounding "normal" 2), overallConfig 60 (rounding "up" 1)] = _
  rw [Policy.buildFrom, hshare, Policy.buildFrom, hoverall]
  rfl

theorem ofPolicy_policy (assignments : List Assignment) :
    Engine.ofPolicy .standard assignments policy = (do return ⟨← rulesFor assignments⟩) := by
  rw [Engine.ofPolicy, listRules_policy]

def terms (percent : ℕ) (passed achieved : RoundingType) : ShareTerms :=
  ⟨.ofDecimal false percent 0, ⟨passed, 0⟩, .ofDecimal false percent 0, ⟨achieved, 1⟩⟩

def assessment (user assignment : String) (points : Value) : Assessment :=
  ⟨.text (user ++ assignment), .text assignment, .text user, .null, points, .bool false⟩

end Sample

end ExamAdmission
