import ExamAdmission.Proofs.Rounding.Digits
import ExamAdmission.Proofs.Rule.Building
import ExamAdmission.Proofs.Rule.Counting

/-! Faults of a check. Numbers may be unreadable, out of range or too long to be rounded, but none of
the faults is a division by zero: percents are relative only to what is not zero. -/

namespace ExamAdmission

attribute [local irreducible] rangeEnd Binary64.unit

/-- A value that percents can be relative to. -/
def Value.IsReference (v : Value) : Prop := ∃ r, v.number? = some r ∧ r.isZero = false

theorem Number.decimal_ne_zero {r : Number} {y : Binary64} (hz : r.isZero = false)
    (hy : r.toBinary64 = .ok y) (a : Bool) (e : ℤ) : Decimal.ofBinary64 y ≠ .finite a 0 e := by
  intro hd
  rcases y with _ | negative | ⟨negative, m⟩
  · cases hd
  · cases hd
  · obtain ⟨c, k, hc, hdec, -⟩ := Decimal.ofBinary64_of_pos (units_pos_of_ne_zero hz hy)
    obtain ⟨-, rfl, -⟩ := Decimal.finite.inj (hdec.symm.trans hd)
    exact lt_irrefl 0 hc

/-- A percent of nothing, or a quotient by zero. -/
def Fault.IsDivision : Fault → Prop
  | .percentOfNothing _ _ => True
  | .arithmetic .divisionByZero => True
  | _ => False

/-- A computation that does not end with a division by zero. -/
def DivisionFree {α : Type} (x : Except Fault α) : Prop := ∀ e, x = .error e → ¬ e.IsDivision

namespace DivisionFree

variable {α β : Type} {x : Except Fault α} {f : α → Except Fault β}

theorem ok (a : α) : DivisionFree (.ok a : Except Fault α) := by
  rintro e ⟨⟩

theorem error {e : Fault} (h : ¬ e.IsDivision) : DivisionFree (.error e : Except Fault α) := by
  rintro _ ⟨⟩
  exact h

theorem bind (hx : DivisionFree x) (hf : ∀ a, x = .ok a → DivisionFree (f a)) :
    DivisionFree (x >>= f) := by
  intro e he
  rcases bind_eq_error.mp he with hfirst | ⟨a, ha, hnext⟩
  · exact hx e hfirst
  · exact hf a ha e hnext

theorem run {x : Run α} {f : α → Run β} (hx : DivisionFree x.result)
    (hf : ∀ a, DivisionFree (f a).result) : DivisionFree (x >>= f).result := by
  intro e he
  rcases Run.bind_result_eq_error.mp he with hfirst | ⟨a, -, hnext⟩
  · exact hx e hfirst
  · exact hf a e hnext

theorem liftArithmetic {x : Except ArithmeticFault α} (h : x ≠ .error .divisionByZero) :
    DivisionFree (ExamAdmission.liftArithmetic x) := by
  intro e he
  obtain ⟨cause, rfl, rfl⟩ := liftArithmetic_eq_error.mp he
  cases cause with
  | invalidOperation => exact id
  | divisionByZero => exact absurd rfl h

end DivisionFree

theorem Number.divisionFree_toBinary64 (a : Number) : DivisionFree a.toBinary64 := by
  cases a with
  | float x => exact .ok x
  | int n =>
    show DivisionFree ((Binary64.ofInt? n).elim (.error .outOfRange) .ok)
    cases Binary64.ofInt? n with
    | none => exact .error id
    | some x => exact .ok x

namespace Value

theorem divisionFree_number (v : Value) : DivisionFree v.number := by
  unfold number
  split
  · exact .ok _
  · exact .error id

theorem divisionFree_toBinary64 (v : Value) : DivisionFree v.toBinary64 := by
  unfold toBinary64
  split
  · split
    · exact .ok _
    · exact .error id
  · exact v.divisionFree_number.bind fun a _ => a.divisionFree_toBinary64

theorem divisionFree_toDecimal (v : Value) : DivisionFree v.toDecimal :=
  v.divisionFree_toBinary64.bind fun _ _ => .ok _

theorem divisionFree_label (v : Value) : DivisionFree v.label := by
  unfold label
  split
  · exact .ok _
  · exact .error id

theorem divisionFree_sum (vs : List Value) : DivisionFree (sum vs) := by
  have hadd : ∀ a b : Number, DivisionFree (a.add b) := by
    intro a b
    unfold Number.add
    split
    · exact .ok _
    · exact a.divisionFree_toBinary64.bind fun _ _ =>
        b.divisionFree_toBinary64.bind fun _ _ => .ok _
  have hfold : ∀ total : Number,
      DivisionFree (vs.foldlM (fun total v => do total.add (← v.number)) total) := by
    induction vs with
    | nil => exact fun total => .ok total
    | cons v rest ih =>
      exact fun total => DivisionFree.bind
        (v.divisionFree_number.bind fun a _ => hadd total a) fun total' _ => ih total'
  exact hfold (.int 0)

end Value

namespace Decimal

variable {x y : Decimal}

theorem mul_ne_divisionByZero : x.mul y ≠ .error .divisionByZero := by
  rcases x with _ | a | ⟨a, m, e⟩ <;> rcases y with _ | b | ⟨b, n, f⟩ <;>
    simp only [mul, ne_eq, reduceCtorEq, not_false_eq_true]
  · split <;> simp
  · split <;> simp

theorem div_ne_divisionByZero (hy : ∀ a e, y ≠ finite a 0 e) :
    x.div y ≠ .error .divisionByZero := by
  rcases x with _ | a | ⟨a, m, e⟩ <;> rcases y with _ | b | ⟨b, n, f⟩ <;>
    simp only [div, ne_eq, reduceCtorEq, not_false_eq_true]
  · simp
  · have hn : n ≠ 0 := by
      rintro rfl
      exact hy b f rfl
    simp [hn]

end Decimal

theorem Value.IsReference.decimal_ne_zero {v : Value} (h : v.IsReference) {d : Decimal}
    (hd : v.toDecimal = .ok d) (a : Bool) (e : ℤ) : d ≠ .finite a 0 e := by
  obtain ⟨r, hr, hz⟩ := h
  obtain ⟨y, hy, ⟨⟩⟩ := bind_eq_ok.mp hd
  rw [toBinary64_of_number? hr] at hy
  exact Number.decimal_ne_zero hz hy a e

theorem divisionFree_percentOf {achieved required : Value} (h : required.IsReference) :
    DivisionFree (percentOf achieved required) := by
  obtain ⟨r, hr, hz⟩ := h
  rw [percentOf_of_number? hr, if_neg (by simp [hz])]
  refine achieved.orZero.divisionFree_toDecimal.bind fun d _ => ?_
  refine (DivisionFree.liftArithmetic Decimal.mul_ne_divisionByZero).bind fun hundredfold _ => ?_
  refine required.divisionFree_toDecimal.bind fun reference hreference => ?_
  -- the double of a reference may be rounded, but never to zero
  have hdiv := Value.IsReference.decimal_ne_zero ⟨r, hr, hz⟩ hreference
  exact (DivisionFree.liftArithmetic (Decimal.div_ne_divisionByZero hdiv)).bind fun _ _ => .ok _

theorem Rounder.divisionFree_round (r : Rounder) (x : Binary64) : DivisionFree (r.round x) := by
  intro e he
  obtain ⟨-, rfl⟩ := round_eq_error.mp he
  exact id

section Check

variable {rounder : Rounder} {requiredPercent : Binary64} {achieved maxPoints : Table Value}

theorem divisionFree_passesAssignment {key : Key} {points : Value} (h : points.IsReference) :
    DivisionFree (passesAssignment rounder requiredPercent achieved key points) :=
  (divisionFree_percentOf h).bind fun percent _ =>
    (rounder.divisionFree_round percent).bind fun _ _ => .ok _

theorem divisionFree_passedAssignments (h : ∀ v ∈ maxPoints.values, v.IsReference) :
    DivisionFree (passedAssignments rounder requiredPercent achieved maxPoints) := by
  induction maxPoints with
  | nil => exact .ok []
  | cons entry rest ih =>
    obtain ⟨hfirst, hrest⟩ := List.forall_mem_cons.mp h
    exact (divisionFree_passesAssignment hfirst).bind fun passes _ =>
      (ih hrest).bind fun others _ => .ok _

theorem divisionFree_percentOfQuota (count : ℕ) (quota : Binary64) :
    DivisionFree (percentOfQuota count quota) := by
  unfold percentOfQuota
  split
  · exact .ok _
  · rename_i hz
    exact divisionFree_percentOf ⟨_, rfl, by simpa using hz⟩

theorem divisionFree_percentOfTotal (sum total : Number) :
    DivisionFree (percentOfTotal rounder sum total) := by
  unfold percentOfTotal
  split
  · exact .ok _
  · rename_i hz
    exact (divisionFree_percentOf ⟨total, Value.number?_toValue total, by simpa using hz⟩).bind
      fun percent _ => rounder.divisionFree_round percent

end Check

namespace Rule

/-- Every assignment of the rule is a reference for percents. -/
def Divisible (rule : Rule) : Prop := ∀ v ∈ rule.basis.maxPoints.values, v.IsReference

variable {rule : Rule}

theorem Divisible.divisionFree_verdict (h : rule.Divisible) (achieved : Table Value) :
    DivisionFree (rule.verdict achieved) := by
  unfold verdict
  split
  · exact .error id
  · exact (divisionFree_passedAssignments h).bind fun forms _ =>
      (divisionFree_percentOfQuota _ _).bind fun percent _ => .ok _
  · exact (Value.divisionFree_sum _).bind fun sum _ =>
      (divisionFree_percentOfTotal _ _).bind fun percent _ => .ok _

theorem divisionFree_counted (assessments : List Assessment) :
    DivisionFree (rule.counted assessments).result := by
  induction assessments with
  | nil => exact .ok []
  | cons a rest ih =>
    unfold counted
    split
    · exact ih
    · refine .run a.assignmentId.divisionFree_label fun label => ?_
      split
      · exact .run (.ok ()) fun _ => ih
      · refine .run ih fun others => ?_
        split
        · exact .ok _
        · exact .ok _

theorem Divisible.divisionFree_check (h : rule.Divisible) (assessments : List Assessment) :
    DivisionFree (rule.check assessments).result := by
  have hachieved : DivisionFree (rule.achieved assessments).result :=
    .run (divisionFree_counted assessments) fun _ => .ok _
  unfold check
  split
  · exact .error id
  · exact .run hachieved fun achieved => h.divisionFree_verdict achieved

end Rule

end ExamAdmission
