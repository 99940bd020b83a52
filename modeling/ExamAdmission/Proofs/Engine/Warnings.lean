import ExamAdmission.Proofs.Engine.Composition
import ExamAdmission.Proofs.Rule.OverallChecks

/-! What an evaluation tells of. For each rule that is the assessments of assignments that the course
does not know, and nothing else; they make no difference to the status. -/

namespace ExamAdmission

attribute [local irreducible] rangeEnd Binary64.unit

/-- Whether an assessment is no draft and belongs to no assignment of the course, of any type. -/
def Assessment.isUnknown (assignments : List Assignment) (a : Assessment) : Bool :=
  !a.isDraft.holds && assignments.all fun b => b.id.key? ≠ a.assignmentId.key?

theorem RuleBasis.mem_known {header : RuleHeader} {assignments : List Assignment}
    {basis : RuleBasis} (h : build header assignments = .ok basis) {key : Key} :
    key ∈ basis.known ↔ ∃ a ∈ assignments, a.id.key? = some key := by
  obtain ⟨labels, -, hlabels, -, -, -, hknown, -⟩ := build_eq_ok h
  have hkeys := map_key?_of_labels (mapM_eq_ok.mp hlabels)
  have hmem : key ∈ labels.map Label.key ↔ some key ∈ assignments.map fun a => a.id.key? := by
    simp [hkeys]
  rw [hknown, hmem, List.mem_map]

namespace Rule

variable {rule : Rule} {header : RuleHeader} {assignments : List Assignment} {A : List Assessment}

theorem counted_events (h : RuleBasis.build header assignments = .ok rule.basis)
    {entries : List (Label × Value)} (hentries : (rule.counted A).result = .ok entries) :
    (rule.counted A).events = (A.filter (Assessment.isUnknown assignments)).map fun a =>
      .unknownAssignment a.id a.assignmentId rule.basis.ruleType := by
  induction A generalizing entries with
  | nil => rfl
  | cons a rest ih =>
    rw [List.filter_cons]
    cases hdraft : a.isDraft.holds with
    | true =>
      have hskip : Assessment.isUnknown assignments a = false := by
        rw [Assessment.isUnknown, hdraft]
        rfl
      rw [counted, if_pos hdraft] at hentries ⊢
      rw [hskip, ih hentries]
      rfl
    | false =>
      rw [counted, if_neg (Bool.eq_false_iff.mp hdraft)] at hentries ⊢
      obtain ⟨label, hlabel, hrest⟩ := Run.bind_result_eq_ok.mp hentries
      obtain ⟨-, hkey⟩ := Value.label_eq_ok.mp hlabel
      have hunknown : Assessment.isUnknown assignments a = true ↔ label.key ∉ rule.basis.known := by
        rw [RuleBasis.mem_known h, Assessment.isUnknown, hdraft, hkey]
        simp
      rw [Run.bind_events hlabel, Run.of_events, List.nil_append]
      by_cases hknown : label.key ∈ rule.basis.known
      · rw [if_neg (not_not.mpr hknown)] at hrest ⊢
        obtain ⟨others, hothers, hentries⟩ := Run.bind_result_eq_ok.mp hrest
        rw [if_neg fun hmem => hunknown.mp hmem hknown, Run.bind_events hothers, ih hothers]
        -- one of another type is passed over in silence
        split <;> exact List.append_nil _
      · rw [if_pos hknown] at hrest ⊢
        obtain ⟨_, htell, hothers⟩ := Run.bind_result_eq_ok.mp hrest
        rw [if_pos (hunknown.mpr hknown), Run.bind_events htell, ih hothers]
        rfl

theorem check_events (h : RuleBasis.build header assignments = .ok rule.basis) {r : CheckResult}
    (hr : (rule.check A).result = .ok r) :
    (rule.check A).events = (A.filter (Assessment.isUnknown assignments)).map fun a =>
      .unknownAssignment a.id a.assignmentId rule.basis.ruleType := by
  have hm : rule.measure ≠ .nothing := by
    intro hm
    rw [check, hm] at hr
    cases hr
  rw [check_of_measured hm] at hr ⊢
  obtain ⟨table, htable, -⟩ := Run.bind_result_eq_ok.mp hr
  obtain ⟨entries, hentries, -⟩ := Run.bind_result_eq_ok.mp htable
  rw [Run.bind_events htable, Run.of_events, achieved, Run.bind_events hentries,
    counted_events h hentries]
  simp

theorem countsFor_eq_false_of_isUnknown {a : Assessment} {type : String}
    (h : a.isUnknown assignments = true) : a.countsFor type assignments = false := by
  simp only [Assessment.isUnknown, Bool.and_eq_true, List.all_eq_true] at h
  simp only [Assessment.countsFor, Bool.and_eq_false_iff, List.any_eq_false]
  exact .inr fun b hb => by simpa using h.2 b (List.mem_of_mem_filter hb)

theorem check_filter_known (h : RuleBasis.build header assignments = .ok rule.basis)
    {r : CheckResult} (hr : (rule.check A).result = .ok r) :
    (rule.check (A.filter fun a => !a.isUnknown assignments)).result = .ok r := by
  refine check_of_same_counting h hr
    (fun b hb => (check_eq_ok.mp hr).1 b (List.mem_of_mem_filter hb)) ?_
  rw [List.filter_filter]
  refine List.filter_congr fun a _ => ?_
  cases hunknown : a.isUnknown assignments with
  | true => rw [countsFor_eq_false_of_isUnknown hunknown, Bool.false_and]
  | false => rw [Bool.not_false, Bool.and_true]

end Rule

namespace Engine

variable {assignments : List Assignment} {A : List Assessment}

theorem checkAll_events {rules : List Rule} {results : List CheckResult}
    (h : (checkAll A rules).result = .ok results) :
    (checkAll A rules).events = rules.flatMap fun rule => (rule.check A).events := by
  induction rules generalizing results with
  | nil => rfl
  | cons rule rest ih =>
    obtain ⟨r, hr, hrest⟩ := Run.bind_result_eq_ok.mp h
    obtain ⟨others, hothers, -⟩ := Run.bind_result_eq_ok.mp hrest
    rw [checkAll, Run.bind_events hr, Run.bind_events hothers, ih hothers]
    simp

/-- Each rule of the engine was built for the course. -/
def BuiltFor (engine : Engine) (assignments : List Assignment) : Prop :=
  ∀ rule ∈ engine.rules, ∃ which config, Rule.build which config assignments = .ok rule

theorem builtFor_of_ofPolicy {registry : Registry} {document : Value} {engine : Engine}
    (h : (ofPolicy registry assignments document).result = .ok engine) :
    engine.BuiltFor assignments := by
  obtain ⟨_, -, hbuilt⟩ := exists_of_ofPolicy h
  intro rule hrule
  obtain ⟨source, -, hbuild⟩ := hbuilt rule hrule
  obtain ⟨which, config, -, -, hwhich⟩ := Registry.exists_of_build hbuild
  exact ⟨which, config, hwhich⟩

theorem evaluate_events {engine : Engine} {status : AdmissionStatus}
    (hbuilt : engine.BuiltFor assignments) (h : (engine.evaluate A).result = .ok status) :
    (engine.evaluate A).events = engine.rules.flatMap fun rule =>
      (A.filter (Assessment.isUnknown assignments)).map fun a =>
        .unknownAssignment a.id a.assignmentId rule.basis.ruleType := by
  obtain ⟨results, hresults, -⟩ := Run.bind_result_eq_ok.mp h
  rw [evaluate, Run.bind_events hresults, checkAll_events hresults, Run.pure_events,
    List.append_nil]
  refine List.flatMap_congr fun rule hrule => ?_
  obtain ⟨which, config, hwhich⟩ := hbuilt rule hrule
  obtain ⟨r, -, hr⟩ := exists_of_forall₂ (checkAll_eq_ok.mp hresults).flip hrule
  exact Rule.check_events (Rule.build_eq_ok hwhich).1 hr

/-- An evaluation warns of the assessments of unknown assignments, once for each rule, in their order
and as often as they stand there, and of nothing else. Without them it has the same status and nothing
to tell. -/
theorem evaluate_warnings {engine : Engine} {status : AdmissionStatus}
    (hbuilt : engine.BuiltFor assignments) (h : (engine.evaluate A).result = .ok status) :
    (engine.evaluate A).events = (engine.rules.flatMap fun rule =>
      (A.filter (Assessment.isUnknown assignments)).map fun a =>
        .unknownAssignment a.id a.assignmentId rule.basis.ruleType) ∧
    (engine.evaluate A).warnings = (engine.rules.flatMap fun _ =>
      (A.filter (Assessment.isUnknown assignments)).map fun a =>
        "Assessment " ++ a.id.written ++ " references unknown assignment " ++
          a.assignmentId.written ++ "; excluded") ∧
    (engine.evaluate (A.filter fun a => !a.isUnknown assignments)).result = .ok status ∧
    (engine.evaluate (A.filter fun a => !a.isUnknown assignments)).events = [] := by
  have hevents := evaluate_events hbuilt h
  have hknown : (engine.evaluate (A.filter fun a => !a.isUnknown assignments)).result =
      .ok status := by
    obtain ⟨hadmission, hresults⟩ := evaluate_eq_ok.mp h
    refine evaluate_eq_ok.mpr ⟨hadmission, ?_⟩
    refine forall₂_of_forall₂ (List.forall₂_same.mpr fun _ _ => rfl) hresults ?_
    rintro rule hrule _ r rfl hr
    obtain ⟨which, config, hwhich⟩ := hbuilt rule hrule
    exact Rule.check_filter_known (Rule.build_eq_ok hwhich).1 hr
  refine ⟨hevents, ?_, hknown, ?_⟩
  · rw [Run.warnings, hevents, List.filterMap_flatMap]
    refine List.flatMap_congr fun rule _ => ?_
    rw [List.filterMap_map, ← List.filterMap_eq_map]
    rfl
  · rw [evaluate_events hbuilt hknown, List.filter_filter]
    simp

/-- A superseded entry and its successor, and a draft and a lecture between two stray entries. -/
def Sample.withStrays : List Assessment :=
  [Sample.assessment "u" "z1" (.int 3), Sample.assessment "u" "a1" (.int 9),
   { Sample.assessment "u" "z2" (.int 3) with isDraft := .bool true },
   Sample.assessment "u" "b1" (.int 5), Sample.assessment "u" "z1" (.int 3),
   Sample.assessment "u" "a1" (.int 8)]

/-- Each of two rules tells of the stray entries. -/
theorem evaluate_warnings_strays :
    ∃ engine status,
      (ofPolicy .standard Rule.Sample.repeatedCatalog Sample.policy).result = .ok engine ∧
      (engine.evaluate Sample.withStrays).result = .ok status ∧
      (engine.evaluate Sample.withStrays).warnings =
        List.replicate 4 "Assessment 'uz1' references unknown assignment 'z1'; excluded" ∧
      (engine.evaluate [Sample.assessment "u" "a1" (.int 9),
        { Sample.assessment "u" "z2" (.int 3) with isDraft := .bool true },
        Sample.assessment "u" "b1" (.int 5), Sample.assessment "u" "a1" (.int 8)]).result =
          .ok status := by
  have hruns : (do
      let engine ← ofPolicy .standard Rule.Sample.repeatedCatalog Sample.policy
      let status ← engine.evaluate Sample.withStrays
      return (engine, status)).result.toOption.any
        (fun p : Engine × AdmissionStatus => p.1.rules.length = 2) = true := by
    rw [Sample.ofPolicy_policy]
    decide +kernel
  obtain ⟨⟨engine, status⟩, hruns, hlength⟩ := exists_of_any hruns
  obtain ⟨_, hengine, hruns⟩ := Run.bind_result_eq_ok.mp hruns
  obtain ⟨_, hstatus, ⟨⟩⟩ := Run.bind_result_eq_ok.mp hruns
  obtain ⟨first, second, hrules⟩ := List.length_eq_two.mp (of_decide_eq_true hlength)
  obtain ⟨-, hwarnings, hknown, -⟩ := evaluate_warnings (builtFor_of_ofPolicy hengine) hstatus
  have hstrays : Sample.withStrays.filter (Assessment.isUnknown Rule.Sample.repeatedCatalog) =
      List.replicate 2 (Sample.assessment "u" "z1" (.int 3)) := rfl
  rw [hrules, hstrays] at hwarnings
  exact ⟨engine, status, hengine, hstatus, hwarnings, hknown⟩

end Engine

end ExamAdmission
