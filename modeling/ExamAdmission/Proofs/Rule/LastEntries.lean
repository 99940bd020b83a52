import ExamAdmission.Proofs.Rounding.EqualPoints
import ExamAdmission.Proofs.Rule.Building
import ExamAdmission.Proofs.Rule.Counting

/-! The entries that count, without the tables they are kept in. Of the assessments it is the last
one for an assignment that is no draft, of the assignments the last one of the rule's type. -/

namespace ExamAdmission

attribute [local irreducible] rangeEnd Binary64.unit

/-- The last assessment for a key that is no draft. -/
def lastAssessment? (assessments : List Assessment) (key : Key) : Option Assessment :=
  (assessments.filter fun a => !a.isDraft.holds && a.assignmentId.key? = some key).getLast?

/-- The points of the last assessment for a key. None yet, or no assessment at all, is zero. -/
def lastPoints (assessments : List Assessment) (key : Key) : Value :=
  match (lastAssessment? assessments key).map Assessment.achievedPoints with
  | some .null => .float (.zero false)
  | some points => points
  | none => .float (.zero false)

/-- The points of the last assignment of a type with a key. -/
def maximum? (type : String) (assignments : List Assignment) (key : Key) : Option Value :=
  let relevant := assignmentsOfType type assignments
  (relevant.filter fun a => a.id.key? = some key).getLast?.map Assignment.points

theorem maximum?_isSome {type : String} {assignments : List Assignment} {key : Key} {max : Value}
    (h : maximum? type assignments key = some max) :
    ∃ a ∈ assignmentsOfType type assignments, a.id.key? = some key ∧ a.points = max := by
  obtain ⟨a, ha, rfl⟩ := Option.map_eq_some_iff.mp h
  obtain ⟨hrelevant, hkey⟩ := List.mem_filter.mp (List.mem_of_getLast? ha)
  exact ⟨a, hrelevant, of_decide_eq_true hkey, rfl⟩

theorem RuleBasis.find?_maxPoints {header : RuleHeader} {assignments : List Assignment}
    {basis : RuleBasis} (h : build header assignments = .ok basis) (key : Key) :
    basis.maxPoints.find? key = maximum? header.assignmentType assignments key := by
  obtain ⟨labels, entries, -, hrel, -, hentries, -, hmax, -, -⟩ := build_eq_ok h
  have hpoints : ∀ {relevant : List Assignment} {entries : List (Label × Value)},
      List.Forall₂ (fun a e => a.id.label = .ok e.1 ∧ a.points = e.2) relevant entries →
      (entries.filter fun e => e.1.key = key).map Prod.snd =
        (relevant.filter fun a => a.id.key? = some key).map Assignment.points := by
    intro relevant entries h
    induction h with
    | nil => rfl
    | @cons a e _ _ he _ ih =>
      obtain ⟨hlabel, hpoints⟩ := he
      have hkey := (Value.label_eq_ok.mp hlabel).2
      by_cases hk : e.1.key = key
      · simp [hkey, hk, ih, hpoints]
      · simp [hkey, hk, ih]
  rw [hmax, Table.find?_ofList, maximum?, ← hrel, ← List.getLast?_map, hpoints hentries,
    List.getLast?_map]

namespace Rule

variable {rule : Rule} {key : Key}

theorem map_contributions (hknown : key ∈ rule.basis.known)
    (hkey : key ∈ rule.basis.maxPoints.keys) (assessments : List Assessment) :
    ((assessments.filter fun a => a.assignmentId.key? = some key).filterMap
        rule.contribution?).map Prod.snd =
      (assessments.filter fun a => !a.isDraft.holds && a.assignmentId.key? = some key).map
        fun a => a.achievedPoints.orZeroPoints := by
  induction assessments with
  | nil => rfl
  | cons a rest ih =>
    by_cases hk : a.assignmentId.key? = some key
    · by_cases hd : a.isDraft.holds = true
      · simp [hk, hd, ih, contribution?, label?]
      · simp [hk, hd, ih, contribution?, label?, hknown, hkey]
    · simp [hk, ih]

theorem find?_contributions (h : rule.basis.WellLabelled)
    (hkey : key ∈ rule.basis.maxPoints.keys) (assessments : List Assessment) :
    (Table.ofList (assessments.filterMap rule.contribution?)).find? key =
      (lastAssessment? assessments key).map fun a => a.achievedPoints.orZeroPoints := by
  rw [Table.find?_ofList, filter_contributions, ← List.getLast?_map,
    map_contributions (h.known hkey) hkey, List.getLast?_map, lastAssessment?]

theorem getD_contributions (h : rule.basis.WellLabelled)
    (hkey : key ∈ rule.basis.maxPoints.keys) (assessments : List Assessment) :
    ((Table.ofList (assessments.filterMap rule.contribution?)).find? key).getD
      (.float (.zero false)) = (lastPoints assessments key).orZeroPoints := by
  have hzero : (Value.float (.zero false)).orZeroPoints = .float (.zero false) := rfl
  rw [find?_contributions h hkey, lastPoints]
  cases lastAssessment? assessments key with
  | none => exact hzero.symm
  | some a =>
    simp only [Option.map_some, Option.getD_some]
    cases a.achievedPoints <;> rfl

end Rule

end ExamAdmission
