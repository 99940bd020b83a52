import ExamAdmission.Proofs.Document.SumSigns
import ExamAdmission.Proofs.Rule.LastEntries

/-! Checks by an overall rule, said without the tables. Assignments are summed in the order in which
they are first mentioned, each of them once and with its last points. -/

namespace ExamAdmission

attribute [local irreducible] rangeEnd Binary64.unit

/-- The keys of the assignments of a type, in the order of first mention. -/
def relevantKeys (type : String) (assignments : List Assignment) : List Key :=
  ((assignmentsOfType type assignments).filterMap fun a => a.id.key?).eraseDups

/-- Whether an assessment is no draft and belongs to an assignment of a type. -/
def Assessment.countsFor (type : String) (assignments : List Assignment) (a : Assessment) : Bool :=
  !a.isDraft.holds &&
    (assignmentsOfType type assignments).any fun b => b.id.key? = a.assignmentId.key?

/-- The keys of the assignments that assessments count for, in the order of first mention. -/
def mentionedKeys (type : String) (assignments : List Assignment) (A : List Assessment) :
    List Key :=
  ((A.filter (Assessment.countsFor type assignments)).filterMap
    fun a => a.assignmentId.key?).eraseDups

theorem mem_relevantKeys {type : String} {assignments : List Assignment} {key : Key} :
    key ∈ relevantKeys type assignments ↔
      ∃ a ∈ assignmentsOfType type assignments, a.id.key? = some key := by
  rw [relevantKeys, List.mem_eraseDups, List.mem_filterMap]

namespace RuleBasis

variable {header : RuleHeader} {assignments : List Assignment} {basis : RuleBasis}

theorem keys_maxPoints (h : build header assignments = .ok basis) :
    basis.maxPoints.keys = relevantKeys header.assignmentType assignments := by
  obtain ⟨-, entries, -, hrelevant, -, hentries, -, hmax, -, -⟩ := build_eq_ok h
  have hkeys : basis.relevant.filterMap (fun a => a.id.key?) = entries.map fun e => e.1.key := by
    have hsome := map_key?_of_labels (hentries.imp fun _ _ he => he.1)
    rw [← Function.id_comp fun a : Assignment => a.id.key?, ← List.filterMap_map, hsome,
      List.filterMap_map, ← List.filterMap_eq_map]
    rfl
  rw [hmax, Table.keys_ofList, ← hkeys, hrelevant, relevantKeys]

theorem values_maxPoints (h : build header assignments = .ok basis) :
    basis.maxPoints.values = (relevantKeys header.assignmentType assignments).filterMap
      (maximum? header.assignmentType assignments) := by
  rw [Table.values_eq_filterMap (wellLabelled_build h).nodup, keys_maxPoints h,
    funext (find?_maxPoints h)]

theorem isAbove_sum_maxPoints {total : Number} (h : build header assignments = .ok basis)
    (hne : basis.relevant ≠ []) (htotal : Value.sum basis.maxPoints.values = .ok total) :
    total.IsAbove := by
  refine Value.isAbove_sum ?_ (fun v hv a ha => ?_) htotal
  · rw [Table.values, Ne, List.map_eq_nil_iff, maxPoints_eq_nil_iff h]
    exact hne
  · obtain ⟨-, -, -, hlacks⟩ := exists_of_mem_maxPoints h hv
    obtain ⟨b, hb, hle⟩ := Value.number?_of_lacksPoints hlacks
    cases ha.symm.trans hb
    exact Bool.eq_false_iff.mp hle

theorem isZero_sum_maxPoints {total : Number} (h : build header assignments = .ok basis)
    (htotal : Value.sum basis.maxPoints.values = .ok total) :
    total.isZero = true ↔ assignmentsOfType header.assignmentType assignments = [] := by
  obtain ⟨-, -, -, hrelevant, -⟩ := build_eq_ok h
  rw [← hrelevant]
  constructor
  · intro hzero
    by_contra hne
    rw [Number.isZero_eq_false_of_le
      (Bool.eq_false_iff.mpr (isAbove_sum_maxPoints h hne htotal))] at hzero
    cases hzero
  · intro hnil
    rw [(maxPoints_eq_nil_iff h).mpr hnil] at htotal
    cases htotal
    exact Number.isZero_int

end RuleBasis

namespace Rule

variable {rule : Rule} {header : RuleHeader} {assignments : List Assignment} {A B : List Assessment}

theorem label?_eq (h : RuleBasis.build header assignments = .ok rule.basis) (a : Assessment) :
    rule.label? a = if a.countsFor header.assignmentType assignments then
      a.assignmentId.key?.map fun key => ⟨a.assignmentId, key⟩ else none := by
  unfold label? Assessment.countsFor
  cases a.isDraft.holds with
  | true => rfl
  | false =>
    cases a.assignmentId.key? with
    | none => simp
    | some key =>
      have hkey : key ∈ rule.basis.known ∧ key ∈ rule.basis.maxPoints.keys ↔
          ((assignmentsOfType header.assignmentType assignments).any
            fun b => b.id.key? = some key) = true := by
        have hknown := (RuleBasis.wellLabelled_build h).known
        rw [and_iff_right_of_imp (hknown ·), RuleBasis.keys_maxPoints h, mem_relevantKeys,
          List.any_eq_true]
        simp only [decide_eq_true_eq]
      simp [hkey]

theorem keys_contributions (h : RuleBasis.build header assignments = .ok rule.basis)
    (A : List Assessment) : (Table.ofList (A.filterMap rule.contribution?)).keys =
      mentionedKeys header.assignmentType assignments A := by
  rw [Table.keys_ofList, List.map_filterMap, mentionedKeys, List.filterMap_filter]
  refine congrArg _ (List.filterMap_congr fun a _ => ?_)
  rw [contribution?, label?_eq h]
  split
  · cases a.assignmentId.key? <;> rfl
  · rfl

theorem mem_maxPoints_of_contributions {key : Key}
    (h : key ∈ (Table.ofList (A.filterMap rule.contribution?)).keys) :
    key ∈ rule.basis.maxPoints.keys := by
  obtain ⟨e, he, rfl⟩ := List.mem_map.mp (Table.mem_keys_ofList.mp h)
  obtain ⟨a, -, ha⟩ := List.mem_filterMap.mp he
  obtain ⟨label, hlabel, rfl⟩ := Option.map_eq_some_iff.mp ha
  exact (label?_eq_some.mp hlabel).2.2.2.2

theorem values_contributions (h : RuleBasis.build header assignments = .ok rule.basis)
    (A : List Assessment) : (Table.ofList (A.filterMap rule.contribution?)).values =
      (mentionedKeys header.assignmentType assignments A).map fun key =>
        (lastPoints A key).orZeroPoints := by
  rw [Table.values_eq_filterMap (Table.nodup_keys_ofList _), keys_contributions h,
    ← List.filterMap_eq_map]
  refine List.filterMap_congr fun key hkey => ?_
  rw [← keys_contributions h] at hkey
  obtain ⟨points, hpoints⟩ := Table.mem_keys_iff.mp hkey
  have hlast := getD_contributions (RuleBasis.wellLabelled_build h)
    (mem_maxPoints_of_contributions hkey) A
  rw [hpoints] at hlast ⊢
  exact congrArg some hlast

theorem filterMap_contributions (h : RuleBasis.build header assignments = .ok rule.basis)
    (A : List Assessment) : A.filterMap rule.contribution? =
      (A.filter (Assessment.countsFor header.assignmentType assignments)).filterMap
        rule.contribution? := by
  rw [List.filterMap_filter]
  refine List.filterMap_congr fun a _ => ?_
  rw [contribution?, label?_eq h]
  split <;> rfl

theorem check_of_same_counting {r : CheckResult}
    (h : RuleBasis.build header assignments = .ok rule.basis)
    (hr : (rule.check A).result = .ok r) (hlabelled : ∀ b ∈ B, b.Labelled)
    (hsame : B.filter (Assessment.countsFor header.assignmentType assignments) =
      A.filter (Assessment.countsFor header.assignmentType assignments)) :
    (rule.check B).result = .ok r := by
  have hverdict := (check_eq_ok.mp hr).2
  rw [filterMap_contributions h, ← hsame, ← filterMap_contributions h] at hverdict
  exact check_eq_ok.mpr ⟨hlabelled, hverdict⟩

/-- An overall rule compares two sums, and both are taken in the order of first mention. Each
assignment of the type adds its last points to the total, and each that assessments count for adds
its last points there to what was achieved. The other assessments make no difference. -/
theorem check_overall {config : RuleConfig}
    (h : build .overall config assignments = .ok rule) :
    ∃ terms rounder total, overallTerms config = .ok terms ∧
      terms.achievedRounding.rounder = .ok rounder ∧
      rule.measure = .overall rounder terms.requiredPercent total ∧
      Value.sum ((relevantKeys config.header.assignmentType assignments).filterMap
        (maximum? config.header.assignmentType assignments)) = .ok total ∧
      (total.isZero = true ↔
        assignmentsOfType config.header.assignmentType assignments = []) ∧
      (∀ A r, (rule.check A).result = .ok r → ∃ sum,
        Value.sum ((mentionedKeys config.header.assignmentType assignments A).map fun key =>
          (lastPoints A key).orZeroPoints) = .ok sum ∧
        ((∀ key ∈ mentionedKeys config.header.assignmentType assignments A,
            (lastPoints A key).holds = true ∨ ∃ x, lastPoints A key = .float x) →
          Value.sum ((mentionedKeys config.header.assignmentType assignments A).map
            (lastPoints A)) = .ok sum) ∧
        r.achievedPoints = sum.toValue ∧
        (total.isZero = true → r.achievedPercent = hundred) ∧
        (total.isZero = false → ∃ p, percentOf sum.toValue total.toValue = .ok p ∧
          rounder.round p = .ok r.achievedPercent) ∧
        (r.passed = true ↔ Number.float terms.requiredPercent ≤ .float r.achievedPercent)) ∧
      ∀ A B r, (rule.check A).result = .ok r → (∀ b ∈ B, b.Labelled) →
        B.filter (Assessment.countsFor config.header.assignmentType assignments) =
          A.filter (Assessment.countsFor config.header.assignmentType assignments) →
        (rule.check B).result = .ok r := by
  obtain ⟨terms, rounder, total, hterms, hrounder, hbasis, htotal, hm⟩ := build_overall_eq_ok h
  have hzero := RuleBasis.isZero_sum_maxPoints hbasis htotal
  rw [RuleBasis.values_maxPoints hbasis] at htotal
  refine ⟨terms, rounder, total, hterms, hrounder, hm, htotal, hzero, fun A r hr => ?_,
    fun A B r hr hlabelled hsame => check_of_same_counting hbasis hr hlabelled hsame⟩
  obtain ⟨sum, p, hsum, hp, rfl⟩ := (verdict_overall_eq_ok hm).mp (check_eq_ok.mp hr).2
  rw [values_contributions hbasis] at hsum
  unfold percentOfTotal at hp
  refine ⟨sum, hsum, fun hpoints => ?_, rfl, fun hz => ?_, fun hz => ?_, Iff.rfl⟩
  · rw [← Value.sum_orZeroPoints (by simpa using hpoints), List.map_map]
    exact hsum
  · rw [if_pos hz] at hp
    exact (Except.ok.inj hp).symm
  · rw [hz] at hp
    exact bind_eq_ok.mp hp

/-- A course that lists one homework twice, with other points and a lecture between. -/
def Sample.repeatedCatalog : List Assignment :=
  Sample.assignments ++ [⟨.text "b1", .text "c", .text "LECTURE", .int 5⟩,
    ⟨.text "a1", .text "c", .text "HOMEWORK", .int 30⟩]

/-- A superseded entry decides the place of the second homework, and its last one the points. The
draft, the lecture and the unknown assignment between them make no difference. -/
theorem check_overall_interspersed :
    ∃ rule r, build .overall (.overall Sample.header ⟨.ofDecimal false 60 0, ⟨.up, 1⟩⟩)
        Sample.repeatedCatalog = .ok rule ∧
      (rule.check [Sample.assessment "u" "a2" .null, Sample.assessment "u" "a1" (.int 9),
        Sample.assessment "u" "a2" (.int 20)]).result = .ok r ∧
      (∃ sum, Value.sum [.int 20, .int 9] = .ok sum ∧ r.achievedPoints = sum.toValue) ∧
      (rule.check [Sample.assessment "u" "b1" (.int 5), Sample.assessment "u" "a2" .null,
        Sample.assessment "u" "a1" (.int 9), Sample.assessment "u" "b9" (.int 7),
        Sample.assessment "u" "a2" (.int 20),
        { Sample.assessment "u" "a1" (.int 30) with isDraft := .bool true }]).result = .ok r := by
  have hruns : (do
      let rule ← build .overall (.overall Sample.header ⟨.ofDecimal false 60 0, ⟨.up, 1⟩⟩)
        Sample.repeatedCatalog
      let r ← (rule.check [Sample.assessment "u" "a2" .null, Sample.assessment "u" "a1" (.int 9),
        Sample.assessment "u" "a2" (.int 20)]).result
      return (rule, r)).isOk = true := by decide +kernel
  obtain ⟨_, hruns⟩ := exists_of_isOk hruns
  obtain ⟨rule, hrule, hruns⟩ := bind_eq_ok.mp hruns
  obtain ⟨r, hr, -⟩ := bind_eq_ok.mp hruns
  obtain ⟨_, _, total, -, -, -, -, -, hcheck, hsame⟩ := check_overall hrule
  obtain ⟨sum, hsum, -, hpoints, -⟩ := hcheck _ r hr
  refine ⟨rule, r, hrule, hr, ⟨sum, hsum, hpoints⟩, hsame _ _ r hr ?_ rfl⟩
  intro b hb
  simp only [List.mem_cons, List.not_mem_nil, or_false] at hb
  rcases hb with rfl | rfl | rfl | rfl | rfl | rfl <;> exact .inr ⟨_, rfl⟩

end Rule

end ExamAdmission
