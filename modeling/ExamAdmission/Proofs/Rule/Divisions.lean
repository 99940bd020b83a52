import ExamAdmission.Proofs.Rule.DivisionFaults

/-! Divisions by zero. A check divides by the points of an assignment, by the quota and by the total,
but by none of them where it is zero. That goes for zero by zero as well: a check with any other
division in place of the usual one is the same, as long as both divide alike by what is not zero. -/

namespace ExamAdmission

section By

variable (divide : Decimal → Decimal → Except ArithmeticFault Decimal)

/-- A division like that of decimals, which may do anything else with a divisor of zero. -/
def Decimal.Divides : Prop := ∀ x y, (∀ a e, y ≠ finite a 0 e) → divide x y = x.div y

def percentBy (achieved required : Value) : Except Fault Binary64 :=
  if required matches .null || required.isZero then .error (.percentOfNothing achieved required)
  else do
    let hundredfold ← liftArithmetic ((← achieved.orZero.toDecimal).mul (.ofInt 100))
    let reference ← required.toDecimal
    return (← liftArithmetic (divide hundredfold reference)).toBinary64

def passesAssignmentBy (rounder : Rounder) (requiredPercent : Binary64) (achieved : Table Value)
    (key : Key) (points : Value) : Except Fault Bool := do
  let percent ← percentBy divide ((achieved.find? key).getD (.float (.zero false))) points
  return (Number.float requiredPercent).le (.float (← rounder.round percent))

def passedAssignmentsBy (rounder : Rounder) (requiredPercent : Binary64)
    (achieved : Table Value) : Table Value → Except Fault (List Value)
  | [] => .ok []
  | (label, points) :: rest => do
    let passes ← passesAssignmentBy divide rounder requiredPercent achieved label.key points
    let others ← passedAssignmentsBy rounder requiredPercent achieved rest
    return if passes then label.form :: others else others

def percentOfQuotaBy (count : Nat) (quota : Binary64) : Except Fault Binary64 :=
  if (Number.float quota).isZero then .ok hundred
  else percentBy divide (.int count) (.float quota)

def percentOfTotalBy (rounder : Rounder) (sum total : Number) : Except Fault Binary64 :=
  if total.isZero then .ok hundred
  else do rounder.round (← percentBy divide sum.toValue total.toValue)

def Rule.verdictBy (rule : Rule) (achieved : Table Value) : Except Fault CheckResult :=
  match rule.measure with
  | .nothing => .error .missingAttribute
  | .share rounder requiredPercent quota => do
    let passed ← passedAssignmentsBy divide rounder requiredPercent achieved rule.basis.maxPoints
    let percent ← percentOfQuotaBy divide passed.length quota
    return rule.result (.int passed.length) percent
      ((Number.float quota).le (.int passed.length))
  | .overall rounder requiredPercent total => do
    let sum ← Value.sum achieved.values
    let percent ← percentOfTotalBy divide rounder sum total
    return rule.result sum.toValue percent ((Number.float requiredPercent).le (.float percent))

def Rule.checkBy (rule : Rule) (assessments : List Assessment) : Run CheckResult :=
  match rule.measure with
  | .nothing => .fail .missingAttribute
  | _ => do Run.of (rule.verdictBy divide (← rule.achieved assessments))

variable {divide}

theorem Value.IsReference.not_guarded {v : Value} :
    v.IsReference → ¬ (v matches .null || v.isZero) = true := by
  rintro ⟨r, hr, hz⟩
  have hzero : v.isZero = false := by simp [isZero, hr, hz]
  cases v with
  | null => cases hr
  | _ => simp [hzero]

theorem percentBy_eq (hdivide : Decimal.Divides divide) {achieved required : Value}
    (h : required.IsReference) :
    percentBy divide achieved required = percentOf achieved required := by
  refine (if_neg h.not_guarded).trans (Eq.trans ?_ (if_neg h.not_guarded).symm)
  apply bind_congr
  intro d
  apply bind_congr
  intro hundredfold
  cases hreference : required.toDecimal with
  | error e => rfl
  | ok reference =>
    show (liftArithmetic (divide hundredfold reference) >>= _) = _
    rw [hdivide _ _ (h.decimal_ne_zero hreference)]
    rfl

section Sites

variable {S : Value → Prop} {rounder : Rounder} {requiredPercent : Binary64}
  {achieved maxPoints : Table Value}
  (hpercent : ∀ achieved required, S required →
    percentBy divide achieved required = percentOf achieved required)

include hpercent

theorem passesAssignmentBy_eq {key : Key} {points : Value} (h : S points) :
    passesAssignmentBy divide rounder requiredPercent achieved key points =
      passesAssignment rounder requiredPercent achieved key points := by
  rw [passesAssignmentBy, hpercent _ _ h, passesAssignment]

theorem passedAssignmentsBy_eq (h : ∀ v ∈ maxPoints.values, S v) :
    passedAssignmentsBy divide rounder requiredPercent achieved maxPoints =
      passedAssignments rounder requiredPercent achieved maxPoints := by
  induction maxPoints with
  | nil => rfl
  | cons entry rest ih =>
    obtain ⟨hfirst, hrest⟩ := List.forall_mem_cons.mp h
    rw [passedAssignmentsBy, passesAssignmentBy_eq hpercent hfirst, ih hrest, passedAssignments]

variable (hS : ∀ v : Value, v.IsReference → S v)

include hS

theorem percentOfQuotaBy_eq (count : ℕ) (quota : Binary64) :
    percentOfQuotaBy divide count quota = percentOfQuota count quota := by
  unfold percentOfQuotaBy percentOfQuota
  split
  · rfl
  · rename_i hz
    exact hpercent _ _ (hS _ ⟨_, rfl, by simpa using hz⟩)

theorem percentOfTotalBy_eq (sum total : Number) :
    percentOfTotalBy divide rounder sum total = percentOfTotal rounder sum total := by
  unfold percentOfTotalBy percentOfTotal
  split
  · rfl
  · rename_i hz
    rw [hpercent _ _ (hS _ ⟨total, Value.number?_toValue total, by simpa using hz⟩)]

theorem Rule.checkBy_eq {rule : Rule} (h : ∀ v ∈ rule.basis.maxPoints.values, S v) :
    rule.checkBy divide = rule.check := by
  have hverdict : ∀ achieved, rule.verdictBy divide achieved = rule.verdict achieved := by
    intro achieved
    unfold verdictBy verdict
    cases rule.measure with
    | nothing => rfl
    | share rounder requiredPercent quota =>
      simp only [passedAssignmentsBy_eq hpercent h, percentOfQuotaBy_eq hpercent hS]
    | overall rounder requiredPercent total => simp only [percentOfTotalBy_eq hpercent hS]
  funext assessments
  unfold checkBy check
  cases rule.measure <;> simp only [hverdict]

end Sites

end By

namespace Rule

variable {rule : Rule}

/-- With the usual division it is the usual check, for every rule. -/
theorem checkBy_div (rule : Rule) : rule.checkBy Decimal.div = rule.check :=
  checkBy_eq (fun _ _ (_ : True) => rfl) (fun _ _ => trivial) fun _ _ => trivial

theorem divisible_build {which : RuleClass} {config : RuleConfig} {assignments : List Assignment}
    (h : build which config assignments = .ok rule) : rule.Divisible := by
  intro v hv
  obtain ⟨-, -, -, hlacks⟩ := RuleBasis.exists_of_mem_maxPoints (build_eq_ok h).1 hv
  obtain ⟨a, ha, hle⟩ := Value.number?_of_lacksPoints hlacks
  exact ⟨a, ha, Number.isZero_eq_false_of_le hle⟩

end Rule

/-- A rule that could be built divides by nothing that is zero: neither a check nor the count of
passed assignments ends with a division by zero, and what a division makes of a zero divisor, zero
by zero included, has no influence on them. -/
theorem Registry.no_division_by_zero {registry : Registry} {assignments : List Assignment}
    {document : Value} {rule : Rule}
    (hbuild : (registry.build assignments document).result = .ok rule) :
    (∀ A, DivisionFree (rule.check A).result) ∧
    (∀ rounder requiredPercent achieved,
      DivisionFree (passedAssignments rounder requiredPercent achieved rule.basis.maxPoints) ∧
      ∀ key points, rule.basis.maxPoints.find? key = some points →
        DivisionFree (passesAssignment rounder requiredPercent achieved key points)) ∧
    ∀ divide, Decimal.Divides divide → rule.checkBy divide = rule.check ∧
      ∀ rounder requiredPercent achieved,
        passedAssignmentsBy divide rounder requiredPercent achieved rule.basis.maxPoints =
          passedAssignments rounder requiredPercent achieved rule.basis.maxPoints ∧
        ∀ key points, rule.basis.maxPoints.find? key = some points →
          passesAssignmentBy divide rounder requiredPercent achieved key points =
            passesAssignment rounder requiredPercent achieved key points := by
  obtain ⟨which, config, -, -, hrule⟩ := exists_of_build hbuild
  have hdivisible := Rule.divisible_build hrule
  refine ⟨hdivisible.divisionFree_check, fun rounder requiredPercent achieved =>
    ⟨divisionFree_passedAssignments hdivisible, fun key points hfind =>
      divisionFree_passesAssignment (hdivisible _ (Table.mem_values_of_find? hfind))⟩,
    fun divide hdivide => ?_⟩
  have hpercent : ∀ achieved required : Value, required.IsReference →
      percentBy divide achieved required = percentOf achieved required :=
    fun _ _ => percentBy_eq hdivide
  exact ⟨Rule.checkBy_eq hpercent (fun _ => id) hdivisible, fun rounder requiredPercent achieved =>
    ⟨passedAssignmentsBy_eq hpercent hdivisible, fun key points hfind =>
      passesAssignmentBy_eq hpercent (hdivisible _ (Table.mem_values_of_find? hfind))⟩⟩

/-- A course with one identifier for two homeworks, of which neither has a finite number of points. -/
def Sample.endlessCatalog : List Value :=
  [.object [("id", .text "a1"), ("type", .text "HOMEWORK"), ("points", .float .nan)],
   .object [("id", .text "a1"), ("type", .text "HOMEWORK"), ("points", .float (.infinite false))]]

theorem Registry.no_division_by_zero_endless :
    ∃ assignments rule, Sample.endlessCatalog.mapM Assignment.read = .ok assignments ∧
      (standard.build assignments (Sample.shareConfig (Sample.rounding "up" 1))).result = .ok rule ∧
      ∀ A, DivisionFree (rule.check A).result := by
  have hparse : standard.parse (.document (Sample.shareConfig (Sample.rounding "up" 1))) = .ok _ :=
    Sample.parse_shareConfig ⟨.up, 1⟩
  have hruns : (do
      let assignments ← Sample.endlessCatalog.mapM Assignment.read
      (standard.build assignments (Sample.shareConfig (Sample.rounding "up" 1))).result).isOk =
        true := by
    simp only [build_of_parse _ hparse]
    decide +kernel
  obtain ⟨rule, hrun⟩ := exists_of_isOk hruns
  obtain ⟨assignments, hread, hbuild⟩ := bind_eq_ok.mp hrun
  exact ⟨assignments, rule, hread, hbuild, (no_division_by_zero hbuild).1⟩

end ExamAdmission
