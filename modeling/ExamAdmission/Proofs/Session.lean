import ExamAdmission.Proofs.Document.Fields
import ExamAdmission.Proofs.Engine.Construction
import ExamAdmission.Session

/-! Sessions of any length. A session changes in its document only, and only by configurations at
the end of the list, so that the engine goes on answering as it did at the start. -/

namespace ExamAdmission

attribute [local irreducible] rangeEnd Binary64.unit

namespace Policy

/-- The document with more configurations at the end of its list of rules. -/
def extend (more : List Value) (document : Value) : Value :=
  match document, configs? document with
  | .object fields, some configs => .object (putField "rules" (.list (configs ++ more)) fields)
  | _, _ => document

theorem configs?_eq_some {document : Value} {configs : List Value} :
    configs? document = some configs ↔
      ∃ fields, document = .object fields ∧ field? "rules" fields = some (.list configs) := by
  cases document with
  | object fields =>
    simp only [configs?]
    split
    · rename_i items hitems
      simp [hitems]
    · rename_i hnone
      simp only [reduceCtorEq, false_iff]
      rintro ⟨_, ⟨⟩, hfield⟩
      exact hnone configs hfield
  | _ => simp [configs?]

theorem configs?_extend {document : Value} {configs : List Value} (more : List Value)
    (h : configs? document = some configs) :
    configs? (extend more document) = some (configs ++ more) := by
  obtain ⟨fields, rfl, -⟩ := configs?_eq_some.mp h
  simp only [extend, h]
  exact configs?_eq_some.mpr ⟨_, rfl, field?_putField _ _ _⟩

theorem extend_of_none {document : Value} (more : List Value) (h : configs? document = none) :
    extend more document = document := by
  cases document with
  | object fields => simp [extend, h]
  | _ => simp [extend]

theorem extend_nil (document : Value) : extend [] document = document := by
  cases h : configs? document with
  | none => exact extend_of_none [] h
  | some configs =>
    obtain ⟨fields, rfl, hfield⟩ := configs?_eq_some.mp h
    simp only [extend, h, List.append_nil, putField_of_field? hfield]

theorem extend_extend (more others : List Value) (document : Value) :
    extend others (extend more document) = extend (more ++ others) document := by
  cases h : configs? document with
  | none =>
    have hsame := extend_of_none more h
    rw [hsame, extend_of_none others h, extend_of_none (more ++ others) h]
  | some configs =>
    have hmore := configs?_extend more h
    obtain ⟨fields, rfl, -⟩ := configs?_eq_some.mp h
    simp only [extend, h] at hmore ⊢
    simp only [hmore, putField_putField, List.append_assoc]

theorem append_document (config document : Value) :
    (append config document).1 = extend [config] document := by
  unfold append extend
  split <;> simp_all

end Policy

/-- The configuration that a step adds to the document. -/
def Step.added? : Step → Option Value
  | .appendRule config => some config
  | _ => none

/-- Steps whose answer comes from the document as it is. -/
def Step.readsDocument : Step → Bool
  | .appendRule _ => true
  | .listRules => true
  | _ => false

/-- A grade, and one for an assignment that the course does not know. -/
def Sample.grades : Value :=
  .list [.object [("id", .text "s1"), ("assignmentId", .text "a1"), ("achievedPoints", .int 7)],
    .object [("id", .text "s2"), ("assignmentId", .text "b1"), ("achievedPoints", .int 9)]]

namespace Session

variable (session : Session) (before after : List Step)

/-- The session after some steps. -/
def afterAll (session : Session) (steps : List Step) : Session :=
  steps.foldl (fun session step => session.after step) session

theorem after_eq (step : Step) : session.after step =
    { session with document := Policy.extend step.added?.toList session.document } := by
  cases step with
  | appendRule config => exact congrArg (Session.mk _ _ _ · _) (Policy.append_document _ _)
  | _ => exact congrArg (Session.mk _ _ _ · _) (Policy.extend_nil _).symm

theorem afterAll_eq : session.afterAll before =
    { session with
      document := Policy.extend (before.filterMap Step.added?) session.document } := by
  induction before generalizing session with
  | nil => exact congrArg (Session.mk _ _ _ · _) (Policy.extend_nil _).symm
  | cons step rest ih =>
    have hfirst := session.after_eq step
    show (session.after step).afterAll rest = _
    rw [ih, hfirst]
    simp only [Policy.extend_extend]
    cases step <;> rfl

theorem run_append :
    session.run (before ++ after) = session.run before ++ (session.afterAll before).run after := by
  induction before generalizing session with
  | nil => rfl
  | cons step rest ih =>
    rw [List.cons_append, run, run, ih, List.cons_append]
    rfl

theorem length_run : (session.run before).length = before.length := by
  induction before generalizing session with
  | nil => rfl
  | cons step rest ih => rw [run, List.length_cons, List.length_cons, ih]

theorem getElem?_run (step : Step) : (session.run (before ++ step :: after))[before.length]? =
    some ((session.afterAll before).answer step) := by
  have hlength := session.length_run before
  rw [run_append, List.getElem?_append_right hlength.le, hlength, Nat.sub_self, run,
    List.getElem?_cons_zero]

theorem answer_of_document {step : Step} (h : step.readsDocument = false) (document : Value) :
    { session with document := document }.answer step = session.answer step := by
  cases step with
  | appendRule config => cases h
  | listRules => cases h
  | _ => rfl

variable {session} {registry : Registry} {form : RecordForm} {course document : Value}

theorem start_eq_ok : (start registry form course document).result = .ok session ↔
    form.assignments course = .ok session.assignments ∧
      (Policy.listRules registry session.assignments document).result = .ok session.engine.rules ∧
      session.registry = registry ∧ session.form = form ∧ session.document = document := by
  simp only [start, Run.bind_result_eq_ok, Run.of_result, Engine.ofPolicy_eq_ok, Run.pure_result,
    Except.ok.injEq]
  constructor
  · rintro ⟨assignments, hassignments, engine, hengine, rfl⟩
    exact ⟨hassignments, hengine, rfl, rfl, rfl⟩
  · rintro ⟨hassignments, hengine, rfl, rfl, rfl⟩
    exact ⟨_, hassignments, _, hengine, rfl⟩

theorem getElem?_run_of_document {step : Step} (h : step.readsDocument = false) :
    (session.run (before ++ step :: after))[before.length]? = some (session.answer step) := by
  rw [getElem?_run, afterAll_eq, answer_of_document session h]

/-- The rules of an engine are those of the document it was built from, whatever steps are taken
and however they end. A step that does not read the document is answered by this engine and as by a
fresh session, and the rules are listed of the first document with all that was added to it. -/
theorem run_of_start (h : (start registry form course document).result = .ok session) :
    ∃ assignments rules, form.assignments course = .ok assignments ∧
      (Policy.listRules registry assignments document).result = .ok rules ∧
      (Engine.ofPolicy registry assignments document).result = .ok ⟨rules⟩ ∧
      ∀ before after : List Step,
        (session.afterAll before).engine.rules = rules ∧
        (∀ step fresh, step.readsDocument = false →
          (start registry form course document).result = .ok fresh →
          (session.run (before ++ step :: after))[before.length]? = (fresh.run [step])[0]?) ∧
        (∀ A, (session.run (before ++ .evaluate A :: after))[before.length]? = some do
          return .status (← (Engine.mk rules).evaluate (← Run.of (form.assessments A)))) ∧
        (∀ participants,
          (session.run (before ++ .evaluateMany participants :: after))[before.length]? = some do
            return .statuses (← (Engine.mk rules).evaluateMany
              (← session.readParticipants participants))) ∧
        (∀ A ids, (session.run (before ++ .group A ids :: after))[before.length]? = some do
          return .groups (← Run.of (form.assessments A) >>= (groupByParticipant · ids))) ∧
        (∀ A ids, (session.run (before ++ .groupEvaluate A ids :: after))[before.length]? = some do
          return .statuses (← (Engine.mk rules).evaluateMany
            (← Run.of (form.assessments A) >>= (groupByParticipant · ids)))) ∧
        (session.run (before ++ .listRules :: after))[before.length]? = some do
          return .rules (← Policy.listRules registry assignments
            (Policy.extend (before.filterMap Step.added?) document)) := by
  obtain ⟨hassignments, hrules, hregistry, hform, hdocument⟩ := start_eq_ok.mp h
  refine ⟨session.assignments, session.engine.rules, hassignments, hrules,
    Engine.ofPolicy_eq_ok.mpr hrules, fun before after =>
    ⟨?_, fun step fresh hstep hfresh => ?_, fun A => ?_, fun participants => ?_, fun A ids => ?_,
      fun A ids => ?_, ?_⟩⟩
  · rw [afterAll_eq]
  · cases h.symm.trans hfresh
    rw [getElem?_run_of_document before after hstep, run, List.getElem?_cons_zero]
  · rw [getElem?_run_of_document before after rfl, ← hform]
    rfl
  · rw [getElem?_run_of_document before after rfl]
    rfl
  · rw [getElem?_run_of_document before after rfl, ← hform]
    rfl
  · rw [getElem?_run_of_document before after rfl, ← hform]
    rfl
  · rw [getElem?_run, afterAll_eq, ← hregistry, ← hdocument]
    rfl

/-- A refused configuration keeps the rules from being listed, but no grade from being checked. -/
theorem run_of_start_refused :
    ∃ session assignments rules,
      (start .standard .lenient (.list Engine.Sample.catalog) Sample.policy).result = .ok session ∧
      RecordForm.lenient.assignments (.list Engine.Sample.catalog) = .ok assignments ∧
      (Engine.ofPolicy .standard assignments Sample.policy).result = .ok ⟨rules⟩ ∧
      (session.run [.appendRule .null, .listRules, .evaluate Sample.grades])[2]? = (some do
        return .status (← (Engine.mk rules).evaluate
          (← Run.of (RecordForm.lenient.assessments Sample.grades)))) ∧
      (session.run [.appendRule .null, .listRules, .evaluate Sample.grades])[2]? =
        (session.run [.evaluate Sample.grades])[0]? ∧
      (session.run [.appendRule .null, .listRules, .evaluate Sample.grades])[1]? = some do
        return .rules (← Policy.listRules .standard assignments
          (Policy.extend [.null] Sample.policy)) := by
  have hstart : (start .standard .lenient (.list Engine.Sample.catalog)
      Sample.policy).result.isOk = true := by
    simp only [start, Sample.ofPolicy_policy]
    decide +kernel
  obtain ⟨session, hsession⟩ := exists_of_isOk hstart
  obtain ⟨assignments, rules, hassignments, -, hengine, hrun⟩ := run_of_start hsession
  obtain ⟨-, hfresh, hevaluate, -⟩ := hrun [.appendRule .null, .listRules] []
  obtain ⟨-, -, -, -, -, -, hlisted⟩ := hrun [.appendRule .null] [.evaluate Sample.grades]
  exact ⟨session, assignments, rules, hsession, hassignments, hengine, hevaluate Sample.grades,
    hfresh (.evaluate Sample.grades) session rfl hsession, hlisted⟩

end Session

end ExamAdmission
