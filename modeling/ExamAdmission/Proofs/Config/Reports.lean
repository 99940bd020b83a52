import ExamAdmission.Policy
import ExamAdmission.Proofs.Config.Complaints

/-! Error lists of configurations. A configuration is read just if there is nothing to complain of, and
otherwise its error list has one entry for each complaint. -/

namespace ExamAdmission

attribute [local irreducible] rangeEnd Binary64.unit

namespace Checked

variable {α β : Type} {x : Checked α} {y : Checked β} {cs cs' : List Complaint}
  {read : Value → Checked α}

/-- A value without complaints, or issues that say what the complaints are. -/
inductive Complains : Checked α → List Complaint → Prop
  | ok (a : α) : Complains (.ok a) []
  | error (issues : List Issue) (h : issues ≠ []) :
      Complains (.error issues) (issues.map Issue.complaint)

namespace Complains

theorem congr (hx : x.Complains cs) (h : cs = cs') : x.Complains cs' := h ▸ hx

theorem and (hx : x.Complains cs) (hy : y.Complains cs') : (x.and y).Complains (cs ++ cs') := by
  cases hx with
  | ok a =>
    cases hy with
    | ok b => exact .ok (a, b)
    | error issues h => exact .error issues h
  | error issues h =>
    -- the right side is read even so
    cases hy with
    | ok b => simpa [Checked.and, Checked.issues] using Complains.error (α := α × β) issues h
    | error others h' =>
      rw [← List.map_append]
      exact .error (issues ++ others) (List.append_ne_nil_of_left_ne_nil h others)

theorem map (f : α → β) (hx : x.Complains cs) : Complains (Except.map f x) cs := by
  cases hx with
  | ok a => exact .ok (f a)
  | error issues h => exact .error issues h

theorem within (name : String) (hx : x.Complains cs) :
    (x.within name).Complains (cs.map (Complaint.within name)) := by
  cases hx with
  | ok a => exact .ok a
  | error issues h =>
    have hplaces : (issues.map Issue.complaint).map (Complaint.within name) =
        (issues.map (Issue.within name)).map Issue.complaint := by
      rw [List.map_map, List.map_map]
      rfl
    rw [hplaces]
    exact .error _ (by simpa using h)

theorem single {read : Value → Except IssueKind α} {p : Value → Prop} [DecidablePred p]
    (h : Reads read p) (v : Value) :
    (Checked.single read v).Complains (if p v then [] else [⟨[], .refused, v⟩]) := by
  unfold Checked.single
  cases hv : read v with
  | ok a =>
    rw [if_pos ((h.ok_iff v).mp ⟨a, hv⟩)]
    exact .ok a
  | error kind =>
    have hnot : ¬ p v := fun hp => by
      obtain ⟨a, ha⟩ := (h.ok_iff v).mpr hp
      cases hv.symm.trans ha
    rw [if_neg hnot, ← h.refused v kind hv]
    exact .error [⟨kind, [], v⟩] (by simp)

theorem required (fields : List (String × Value)) (check : FieldCheck)
    (hoptional : check.optional = false)
    (h : ∀ v, (read v).Complains (check.complaints v)) :
    (Checked.required fields check.name read).Complains (check.complaintsIn fields) := by
  unfold Checked.required FieldCheck.complaintsIn
  cases field? check.name fields with
  | some v => exact (h v).within check.name
  | none =>
    rw [hoptional]
    exact .error [⟨.missing, [check.name], .object fields⟩] (by simp)

theorem optional (fields : List (String × Value)) (check : FieldCheck) (absent : α)
    (hoptional : check.optional = true)
    (h : ∀ v, (read v).Complains (check.complaints v)) :
    (Checked.optional fields check.name absent read).Complains (check.complaintsIn fields) := by
  unfold Checked.optional FieldCheck.complaintsIn
  cases field? check.name fields with
  | some v => exact (h v).within check.name
  | none =>
    rw [hoptional]
    exact .ok absent

theorem closed (fields : List (String × Value)) (known : List String) :
    (Checked.closed fields known).Complains (unexpectedFields known fields) := by
  unfold Checked.closed unexpectedFields
  split
  · rename_i hnone
    rw [hnone]
    exact .ok ()
  · rename_i hnone
    refine congr (.error _ (by simpa using hnone)) ?_
    rw [List.map_map]
    rfl

theorem exists_ok_iff (hx : x.Complains cs) : (∃ a, x = .ok a) ↔ cs = [] := by
  cases hx with
  | ok a => simp
  | error issues h => simp [h]

end Complains

end Checked

open Checked (Complains)

theorem RoundingPolicy.complains_ofValue (v : Value) :
    (ofValue v).Complains (policyComplaints v) := by
  cases v with
  | object fields =>
    have htype := Complains.required fields (.single "type" false Value.IsRoundingName) rfl
      (.single Field.reads_roundingType)
    have hdecimals := Complains.optional fields (.single "decimals" true Value.IsDecimals) 0 rfl
      (.single Field.reads_natural)
    have hnames : policyChecks.map FieldCheck.name = fieldNames := rfl
    refine .congr (.map _ (htype.and (hdecimals.and (.closed fields fieldNames)))) ?_
    rw [policyComplaints, complaintsOf, hnames]
    simp [policyChecks]
  | _ => exact .error [⟨.notRoundingPolicy, [], _⟩] (by simp)

namespace RuleConfig

theorem complains_headerOf (fields : List (String × Value)) (which : ConfigClass) :
    (headerOf fields which.ownType?).Complains
      (which.typeCheck.complaintsIn fields ++
        ((FieldCheck.single "assignment_type" false Value.IsNonEmptyText).complaintsIn fields ++
          (FieldCheck.single "when_no_assignments" true Value.IsErrorOrPass).complaintsIn
            fields)) := by
  refine .map _ (.and ?_ (.and ?_ ?_))
  · exact .required fields which.typeCheck rfl (.single (Field.reads_typeName which.ownType?))
  · exact .required fields (.single "assignment_type" false Value.IsNonEmptyText) rfl
      (.single Field.reads_nonEmptyText)
  · exact .optional fields (.single "when_no_assignments" true Value.IsErrorOrPass) _ rfl
      (.single Field.reads_whenNoAssignments)

theorem complains_percentField (fields : List (String × Value)) (name : String) :
    (percentField fields name).Complains
      ((FieldCheck.single name false Value.IsPercent).complaintsIn fields) :=
  .required fields (.single name false Value.IsPercent) rfl (.single Field.reads_percent)

theorem complains_roundingField (fields : List (String × Value)) (name : String) :
    (roundingField fields name).Complains ((FieldCheck.policy name).complaintsIn fields) :=
  .required fields (.policy name) rfl RoundingPolicy.complains_ofValue

theorem complains_ofFields (fields : List (String × Value)) (which : ConfigClass) :
    (ofFields fields which).Complains (complaintsOf which.checks fields) := by
  have hheader := complains_headerOf fields which
  cases which with
  | base =>
    have hnames : ConfigClass.base.checks.map FieldCheck.name = headerNames := rfl
    refine .congr (.map _ (hheader.and (.closed fields headerNames))) ?_
    rw [complaintsOf, hnames]
    simp [ConfigClass.checks, ConfigClass.termChecks]
  | share =>
    have hnames : ConfigClass.share.checks.map FieldCheck.name = headerNames ++ shareNames := rfl
    have hterms := (complains_percentField fields "passed_assignments_percent").and <|
      (complains_roundingField fields "passed_assignments_rounding").and <|
        (complains_percentField fields "required_percent").and <|
          complains_roundingField fields "achieved_percent_rounding"
    refine .congr (.map _ (hheader.and <| (hterms.map _).and <|
      .closed fields (headerNames ++ shareNames))) ?_
    rw [complaintsOf, hnames]
    simp [ConfigClass.checks, ConfigClass.termChecks]
  | overall =>
    have hnames : ConfigClass.overall.checks.map FieldCheck.name = headerNames ++ overallNames :=
      rfl
    have hterms := (complains_percentField fields "required_percent").and <|
      complains_roundingField fields "achieved_percent_rounding"
    refine .congr (.map _ (hheader.and <| (hterms.map _).and <|
      .closed fields (headerNames ++ overallNames))) ?_
    rw [complaintsOf, hnames]
    simp [ConfigClass.checks, ConfigClass.termChecks]

end RuleConfig

/-- A configuration with most kinds of problems in it. -/
def Sample.troubled : List (String × Value) :=
  [("more", .bool true), ("type", .text "Required_Percent_Overall"),
   ("required_percent", .text "nan"),
   ("achieved_percent_rounding", .object [("places", .int 2), ("decimals", .float (.zero true))]),
   ("assignment_type", .text "")]

namespace Registry

variable {r : Registry} {fields : List (String × Value)} {given : String} {which : ConfigClass}

/-- The object that is read, with its type in lower case. -/
def entered (given : String) (fields : List (String × Value)) : List (String × Value) :=
  putField "type" (.text (lowerCase given)) fields

theorem isTypeName_of_standard {name : String}
    (h : standard.configs.find? (.text name) = some which) :
    (Value.text name).IsTypeName which.ownType? := by
  simp only [standard, Table.find?, Label.ofText, Key.text.injEq] at h
  refine ⟨name, rfl, fun own hown => ?_⟩
  split at h
  · rename_i hname
    cases h
    cases hown
    exact hname.symm
  · split at h
    · rename_i hname
      cases h
      cases hown
      exact hname.symm
    · cases h

/-- A configuration of a registered type is read just if every field of its class is there, as it
must be, and there are no others. If it is refused there is one entry for each problem, in the order
of the fields and with those of a rounding policy in its place; then come the unexpected fields. -/
theorem parse_reports (htype : field? "type" fields = some (.text given))
    (hwhich : r.configs.find? (.text (lowerCase given)) = some which) :
    ((∃ config, r.parse (.document (.object fields)) = .ok config) ↔
      AcceptsFields which.checks (entered given fields)) ∧
    (r = standard → which.typeCheck.AcceptsIn (entered given fields)) ∧
    (¬ AcceptsFields which.checks (entered given fields) →
      ∃ issues, r.parse (.document (.object fields)) =
          .error (.config (.invalidFields (lowerCase given) issues)) ∧
        ConfigError.details (.invalidFields (lowerCase given) issues) =
          [("errors", .issues issues)] ∧
        issues.map Issue.complaint = complaintsOf which.checks (entered given fields) ∧
        ((Value.object fields).KeysOnce → (∀ entry ∈ fields, entry.2.KeysOnce) →
          (issues.map Issue.place).Nodup)) := by
  have hread := RuleConfig.complains_ofFields (entered given fields) which
  have hok : ∀ config, RuleConfig.ofFields (entered given fields) which = .ok config →
      r.parse (.document (.object fields)) = .ok config := by
    intro config hconfig
    rw [entered] at hconfig
    simp only [parse, RuleConfig.parse, htype, hwhich, hconfig]
  have herror : ∀ issues, RuleConfig.ofFields (entered given fields) which = .error issues →
      r.parse (.document (.object fields)) =
        .error (.config (.invalidFields (lowerCase given) issues)) := by
    intro issues hissues
    rw [entered] at hissues
    simp only [parse, RuleConfig.parse, htype, hwhich, hissues]
  have honce : (Value.object fields).KeysOnce → (∀ entry ∈ fields, entry.2.KeysOnce) →
      ((complaintsOf which.checks (entered given fields)).map Complaint.place).Nodup := by
    intro hkeys hinner
    refine which.nodup_complaintsOf_checks ?_ fun entry hentry => ?_
    · rwa [Value.KeysOnce, entered, keys_putField htype]
    · rcases eq_or_mem_of_mem_putField hentry with rfl | hmem
      · trivial
      · exact hinner entry hmem
  refine ⟨?_, ?_, fun hnot => ?_⟩
  · rw [← complaintsOf_eq_nil, ← hread.exists_ok_iff]
    cases hresult : RuleConfig.ofFields (entered given fields) which with
    | ok config => simp [hok config hresult]
    | error issues => simp [herror issues hresult]
  · rintro rfl
    rw [FieldCheck.AcceptsIn, ConfigClass.typeCheck, FieldCheck.single, entered, field?_putField]
    exact isTypeName_of_standard hwhich
  · rw [← complaintsOf_eq_nil] at hnot
    generalize complaintsOf which.checks _ = complaints at *
    cases hresult : RuleConfig.ofFields (entered given fields) which with
    | ok config =>
      rw [hresult] at hread
      cases hread
      exact absurd rfl hnot
    | error issues =>
      rw [hresult] at hread
      cases hread
      rw [List.map_map] at honce
      exact ⟨issues, herror issues hresult, rfl, rfl, honce⟩

/-- Each problem has its entry, in the order of the class and not in that of the object. -/
theorem parse_reports_troubled :
    ∃ issues, standard.parse (.document (.object Sample.troubled)) =
        .error (.config (.invalidFields overallType issues)) ∧
      issues.map (fun issue => (issue.place, issue.kind.cause)) =
        [(["assignment_type"], .refused), (["required_percent"], .refused),
         (["achieved_percent_rounding", "type"], .missing),
         (["achieved_percent_rounding", "places"], .unexpected), (["more"], .unexpected)] ∧
      (issues.map Issue.place).Nodup := by
  have htype : field? "type" Sample.troubled = some (.text "Required_Percent_Overall") := rfl
  have hname : lowerCase "Required_Percent_Overall" = overallType := by decide +kernel
  have hwhich : standard.configs.find? (.text (lowerCase "Required_Percent_Overall")) =
      some .overall := by decide +kernel
  have hcomplaints : (complaintsOf ConfigClass.overall.checks
      (entered "Required_Percent_Overall" Sample.troubled)).map (fun c => (c.place, c.cause)) =
        [(["assignment_type"], .refused), (["required_percent"], .refused),
         (["achieved_percent_rounding", "type"], .missing),
         (["achieved_percent_rounding", "places"], .unexpected), (["more"], .unexpected)] := by
    decide +kernel
  obtain ⟨-, -, hrefused⟩ := parse_reports htype hwhich
  obtain ⟨issues, hparse, -, hissues, honce⟩ := hrefused fun haccepts => by
    rw [complaintsOf_eq_nil.mpr haccepts] at hcomplaints
    cases hcomplaints
  rw [← hissues, List.map_map] at hcomplaints
  refine ⟨issues, hname ▸ hparse, hcomplaints, honce ?_ ?_⟩
  · rw [Value.KeysOnce]
    decide
  · simp [Sample.troubled, Value.KeysOnce]

end Registry

end ExamAdmission
