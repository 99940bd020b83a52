import ExamAdmission.Config.RuleConfig
import ExamAdmission.Proofs.Document.NumberOrder

/-! What is known of a configuration that was read: its percents are between 0 and 100. -/

namespace ExamAdmission

attribute [local irreducible] rangeEnd Binary64.unit

namespace Checked

variable {α β : Type} {x : Checked α} {y : Checked β} {a : α} {b : β} {name : String}
  {fields : List (String × Value)} {read : Value → Checked α}

theorem and_eq_ok : x.and y = .ok (a, b) ↔ x = .ok a ∧ y = .ok b := by
  cases x <;> cases y <;> simp [Checked.and]

theorem within_eq_ok : x.within name = .ok a ↔ x = .ok a := by
  cases x <;> simp [within]

theorem required_eq_ok :
    required fields name read = .ok a ↔ ∃ v, field? name fields = some v ∧ read v = .ok a := by
  cases h : field? name fields <;> simp [required, h, within_eq_ok]

theorem single_eq_ok {read : Value → Except IssueKind α} {v : Value} :
    single read v = .ok a ↔ read v = .ok a := by
  cases h : read v <;> simp [single, h]

theorem map_eq_ok {f : α → β} : Except.map f x = .ok b ↔ ∃ a, x = .ok a ∧ f a = b := by
  cases x <;> simp [Except.map]

end Checked

/-- A number from 0 to 100. -/
def Binary64.IsPercent (p : Binary64) : Prop := Number.int 0 ≤ .float p ∧ Number.float p ≤ .int 100

theorem Field.percent_eq_ok {v : Value} {x : Binary64} :
    percent v = .ok x ↔ number v = .ok x ∧ x.IsPercent := by
  unfold percent
  rw [bind_eq_ok]
  constructor
  · rintro ⟨y, hy, hx⟩
    split at hx
    · cases hx
    · rename_i hupper
      split at hx
      · cases hx
      · rename_i hlower
        cases hx
        have hl : (Number.int 0).le (.float x) = true := by simpa using hlower
        have hu : (Number.float x).le (.int 100) = true := by simpa using hupper
        exact ⟨hy, hl, hu⟩
  · rintro ⟨hx, hl, hu⟩
    have hlower : (Number.int 0).le (.float x) = true := hl
    have hupper : (Number.float x).le (.int 100) = true := hu
    exact ⟨x, hx, by simp [hlower, hupper]⟩

namespace Field

variable {v : Value} {s : String}

theorem text_eq_ok : text v = .ok s ↔ v = .text s := by
  cases v <;> simp [text]

theorem exactly_eq_ok {name : String} : exactly name v = .ok s ↔ v = .text s ∧ s = name := by
  cases v with
  | text t =>
    by_cases h : t = name
    · simp only [exactly, if_pos h, Except.ok.injEq, Value.text.injEq]
      exact ⟨fun e => ⟨e, e ▸ h⟩, And.left⟩
    · simp only [exactly, if_neg h, reduceCtorEq, Value.text.injEq, false_iff]
      exact fun e => h (e.1.trans e.2)
  | _ => simp [exactly]

theorem nonEmptyText_eq_ok : nonEmptyText v = .ok s ↔ v = .text s ∧ s ≠ "" := by
  cases v with
  | text t =>
    by_cases h : t = ""
    · simp only [nonEmptyText, if_pos h, reduceCtorEq, Value.text.injEq, false_iff]
      exact fun e => e.2 (e.1 ▸ h)
    · simp only [nonEmptyText, if_neg h, Except.ok.injEq, Value.text.injEq]
      exact ⟨fun e => ⟨e, e ▸ h⟩, And.left⟩
  | _ => simp [nonEmptyText]

end Field

namespace RuleConfig

theorem headerOf_eq_ok {fields : List (String × Value)} {only : Option String}
    {header : RuleHeader} : headerOf fields only = .ok header ↔
      field? "type" fields = some (.text header.ruleType) ∧
      (∀ name ∈ only, header.ruleType = name) ∧
      field? "assignment_type" fields = some (.text header.assignmentType) ∧
      header.assignmentType ≠ "" ∧
      Checked.optional fields "when_no_assignments" .error
        (Checked.single Field.whenNoAssignments) = .ok header.whenNoAssignments := by
  unfold headerOf
  cases only <;> simp only [Checked.map_eq_ok, Prod.exists, Checked.and_eq_ok,
    Checked.required_eq_ok, Checked.single_eq_ok, Field.text_eq_ok, Field.exactly_eq_ok,
    Field.nonEmptyText_eq_ok]
  · constructor
    · rintro ⟨_, _, _, ⟨⟨_, htype, rfl⟩, ⟨_, hassignment, rfl, hne⟩, hwhen⟩, rfl⟩
      exact ⟨htype, nofun, hassignment, hne, hwhen⟩
    · rintro ⟨htype, -, hassignment, hne, hwhen⟩
      exact ⟨_, _, _, ⟨⟨_, htype, rfl⟩, ⟨_, hassignment, rfl, hne⟩, hwhen⟩, rfl⟩
  · constructor
    · rintro ⟨_, _, _, ⟨⟨_, htype, rfl, rfl⟩, ⟨_, hassignment, rfl, hne⟩, hwhen⟩, rfl⟩
      exact ⟨htype, by simp, hassignment, hne, hwhen⟩
    · rintro ⟨htype, honly, hassignment, hne, hwhen⟩
      exact ⟨_, _, _, ⟨⟨_, htype, rfl, honly _ rfl⟩, ⟨_, hassignment, rfl, hne⟩, hwhen⟩, rfl⟩

/-- The percents of a configuration are in their range. -/
def InRange : RuleConfig → Prop
  | .base _ => True
  | .share _ terms => terms.passedPercent.IsPercent ∧ terms.requiredPercent.IsPercent
  | .overall _ terms => terms.requiredPercent.IsPercent

theorem isPercent_percentField {fields : List (String × Value)} {name : String} {p : Binary64}
    (h : percentField fields name = .ok p) : p.IsPercent := by
  obtain ⟨v, -, hv⟩ := Checked.required_eq_ok.mp h
  exact (Field.percent_eq_ok.mp (Checked.single_eq_ok.mp hv)).2

theorem inRange_ofFields {fields : List (String × Value)} {which : ConfigClass}
    {config : RuleConfig} (h : ofFields fields which = .ok config) : config.InRange := by
  cases which with
  | base =>
    obtain ⟨_, -, rfl⟩ := Checked.map_eq_ok.mp h
    trivial
  | share =>
    obtain ⟨⟨header, terms, _⟩, hparts, rfl⟩ := Checked.map_eq_ok.mp h
    have hterms := (Checked.and_eq_ok.mp (Checked.and_eq_ok.mp hparts).2).1
    obtain ⟨⟨passed, _, required, _⟩, hfields, rfl⟩ := Checked.map_eq_ok.mp hterms
    obtain ⟨hpassed, hrest⟩ := Checked.and_eq_ok.mp hfields
    have hrequired := (Checked.and_eq_ok.mp (Checked.and_eq_ok.mp hrest).2).1
    exact ⟨isPercent_percentField hpassed, isPercent_percentField hrequired⟩
  | overall =>
    obtain ⟨⟨header, terms, _⟩, hparts, rfl⟩ := Checked.map_eq_ok.mp h
    have hterms := (Checked.and_eq_ok.mp (Checked.and_eq_ok.mp hparts).2).1
    obtain ⟨⟨required, _⟩, hfields, rfl⟩ := Checked.map_eq_ok.mp hterms
    exact isPercent_percentField (Checked.and_eq_ok.mp hfields).1

theorem parse_eq_ok {classes : Table ConfigClass} {v : Value} {config : RuleConfig} :
    parse classes (.document v) = .ok config ↔ ∃ fields given which, v = .object fields ∧
      field? "type" fields = some (.text given) ∧
      classes.find? (.text (lowerCase given)) = some which ∧
      ofFields (putField "type" (.text (lowerCase given)) fields) which = .ok config := by
  constructor
  · intro h
    cases v with
    | object fields =>
      simp only [parse] at h
      split at h
      · rename_i given htype
        split at h
        · obtain ⟨_, _, herror⟩ := bind_eq_ok.mp h
          cases herror
        · rename_i which hwhich
          split at h
          · rename_i hread
            cases h
            exact ⟨fields, given, which, rfl, htype, hwhich, hread⟩
          · cases h
      · obtain ⟨_, _, herror⟩ := bind_eq_ok.mp h
        cases herror
    | _ => cases h
  · rintro ⟨fields, given, which, rfl, htype, hwhich, hread⟩
    simp only [parse, htype, hwhich, hread]

theorem inRange_parse {classes : Table ConfigClass} {v : Value} {config : RuleConfig}
    (h : parse classes (.document v) = .ok config) : config.InRange := by
  obtain ⟨_, _, _, -, -, -, hread⟩ := parse_eq_ok.mp h
  exact inRange_ofFields hread

end RuleConfig

end ExamAdmission
