import ExamAdmission.Proofs.Document.Growth
import ExamAdmission.Proofs.Rounding.PercentRange
import ExamAdmission.Proofs.Rule.Building
import ExamAdmission.Proofs.Rule.Counting

/-! Verdicts on a table of points and on one that it grows into. More points never fail a rule that
was passed, for either kind of rule and every rounding. -/

namespace ExamAdmission

attribute [local irreducible] rangeEnd Binary64.unit

/-- One result against another one of the same rule: points, percent and whether it is passed. -/
structure CheckResult.AtMost (r r' : CheckResult) : Prop where
  points : r.achievedPoints.AtMost r'.achievedPoints
  percent : r.achievedPercent ≤ r'.achievedPercent
  passed : r.passed = true → r'.passed = true

theorem Value.IsWorth.percentOf_mono {v w points : Value} {p q : Binary64} (h : points.IsWorth)
    (hvw : v.AtMost w) (hp : percentOf v points = .ok p) (hq : percentOf w points = .ok q) :
    p ≤ q := by
  obtain ⟨r, hr, -, h0, -⟩ := h
  exact ExamAdmission.percentOf_mono hvw hr h0 hp hq

section Share

variable {rounder : Rounder} {requiredPercent : Binary64} {table table' : Table Value}

/-- Whatever key is looked up, the second table has no fewer points for it. -/
def Table.PointsAtMost (table table' : Table Value) : Prop :=
  ∀ key, ((table.find? key).getD (.float (.zero false))).AtMost
    ((table'.find? key).getD (.float (.zero false)))

theorem passesAssignment_mono {key : Key} {points : Value} {b : Bool}
    (h : table.PointsAtMost table') (hw : points.IsWorth)
    (hpass : passesAssignment rounder requiredPercent table key points = .ok true)
    (hpass' : passesAssignment rounder requiredPercent table' key points = .ok b) : b = true := by
  obtain ⟨p, x, hp, hx, hle⟩ := passesAssignment_eq_ok.mp hpass
  obtain ⟨p', x', hp', hx', rfl⟩ := passesAssignment_eq_ok.mp hpass'
  have hxx := Rounder.round_mono (hw.percentOf_mono (h key) hp hp') hx hx'
  exact Number.le_trans hle (Number.float_le_float.mpr hxx)

/-- What passes every assignment that is passed by other terms or points passes no fewer of them. -/
theorem passedAssignments_sublist {rounder' : Rounder} {requiredPercent' : Binary64}
    {maxPoints : Table Value} {forms forms' : List Value}
    (h : ∀ e ∈ maxPoints, ∀ b,
      passesAssignment rounder requiredPercent table e.1.key e.2 = .ok true →
      passesAssignment rounder' requiredPercent' table' e.1.key e.2 = .ok b → b = true)
    (hf : passedAssignments rounder requiredPercent table maxPoints = .ok forms)
    (hf' : passedAssignments rounder' requiredPercent' table' maxPoints = .ok forms') :
    forms.Sublist forms' := by
  obtain ⟨-, rfl⟩ := passedAssignments_eq_ok.mp hf
  obtain ⟨hknown, rfl⟩ := passedAssignments_eq_ok.mp hf'
  have himp : ∀ e ∈ maxPoints, isPassed rounder requiredPercent table e = true →
      isPassed rounder' requiredPercent' table' e = true := by
    intro e he hpass
    obtain ⟨b, hb⟩ := hknown e he
    rw [isPassed_iff, hb, h e he b (isPassed_iff.mp hpass) hb]
  have hfilter : maxPoints.filter (isPassed rounder requiredPercent table) =
      (maxPoints.filter (isPassed rounder' requiredPercent' table')).filter
        (isPassed rounder requiredPercent table) := by
    rw [List.filter_filter]
    refine List.filter_congr fun e he => ?_
    rw [Bool.eq_iff_iff, Bool.and_eq_true]
    exact (and_iff_left_of_imp (himp e he)).symm
  rw [hfilter]
  exact List.filter_sublist.map _

theorem passedAssignments_mono {maxPoints : Table Value} {forms forms' : List Value}
    (h : table.PointsAtMost table') (hw : ∀ v ∈ maxPoints.values, v.IsWorth)
    (hf : passedAssignments rounder requiredPercent table maxPoints = .ok forms)
    (hf' : passedAssignments rounder requiredPercent table' maxPoints = .ok forms') :
    forms.Sublist forms' := by
  refine passedAssignments_sublist (fun e he b hpass hpass' => ?_) hf hf'
  exact passesAssignment_mono h (hw e.2 (List.mem_map_of_mem he)) hpass hpass'

end Share

theorem percentOfQuota_mono {m n : ℕ} {quota p q : Binary64} (hmn : m ≤ n)
    (h0 : .zero false ≤ quota) (hp : percentOfQuota m quota = .ok p)
    (hq : percentOfQuota n quota = .ok q) : p ≤ q := by
  unfold percentOfQuota at hp hq
  split at hp
  · rename_i hz
    rw [if_pos hz] at hq
    cases hp
    cases hq
    exact Binary64.le_refl hundred_ne_nan
  · rename_i hz
    rw [if_neg hz] at hq
    have hcount : (Value.int m).AtMost (.int n) :=
      ⟨_, _, rfl, rfl, Number.int_le_int.mpr (Int.ofNat_le.mpr hmn)⟩
    exact percentOf_mono hcount rfl (Number.zero_le_float.mpr h0) hp hq

theorem percentOfTotal_mono {rounder : Rounder} {s s' total : Number} {p q : Binary64}
    (hs : s ≤ s') (h0 : .int 0 ≤ total) (hp : percentOfTotal rounder s total = .ok p)
    (hq : percentOfTotal rounder s' total = .ok q) : p ≤ q := by
  unfold percentOfTotal at hp hq
  split at hp
  · rename_i hz
    rw [if_pos hz] at hq
    cases hp
    cases hq
    exact Binary64.le_refl hundred_ne_nan
  · rename_i hz
    rw [if_neg hz] at hq
    obtain ⟨x, hx, hround⟩ := bind_eq_ok.mp hp
    obtain ⟨x', hx', hround'⟩ := bind_eq_ok.mp hq
    have hsum : s.toValue.AtMost s'.toValue :=
      ⟨s, s', Value.number?_toValue s, Value.number?_toValue s', hs⟩
    exact Rounder.round_mono (percentOf_mono hsum (Value.number?_toValue total) h0 hx hx') hround
      hround'

namespace Rule

variable {rule : Rule}

/-- Only an overall rule sums points, and only for it whole numbers have to be small. -/
theorem Sound.verdict_mono (h : rule.Sound) {table table' : Table Value} {r r' : CheckResult}
    (hg : table.Grows table') (hn : table'.keys.Nodup) (ht : ∀ v ∈ table.values, v.IsFinite)
    (ht' : ∀ v ∈ table'.values, v.IsFinite)
    (hwhole : ∀ rounder required total, rule.measure = .overall rounder required total →
      (table.values.map Value.whole).sum ≤ 2 ^ 53 ∧ (table'.values.map Value.whole).sum ≤ 2 ^ 53)
    (hr : rule.verdict table = .ok r) (hr' : rule.verdict table' = .ok r') : r.AtMost r' := by
  have hnonneg := h.nonneg
  cases hm : rule.measure with
  | nothing =>
    rw [verdict_nothing hm] at hr
    cases hr
  | share rounder requiredPercent quota =>
    rw [hm] at hnonneg
    obtain ⟨forms, p, hforms, hp, rfl⟩ := (verdict_share_eq_ok hm).mp hr
    obtain ⟨forms', p', hforms', hp', rfl⟩ := (verdict_share_eq_ok hm).mp hr'
    have hpoints : table.PointsAtMost table' := fun key =>
      hg.find?_getD hn ht' ⟨_, _, rfl, rfl, Number.float_zero_le false⟩
        ⟨_, rfl, Number.isFinite_float.mpr ⟨_, _, rfl⟩⟩ key
    have hcount := (passedAssignments_mono hpoints h.isWorth hforms hforms').length_le
    have hint : (Number.int forms.length) ≤ .int forms'.length :=
      Number.int_le_int.mpr (Int.ofNat_le.mpr hcount)
    exact ⟨⟨_, _, rfl, rfl, hint⟩, percentOfQuota_mono hcount hnonneg hp hp',
      fun hpass => Number.le_trans hpass hint⟩
  | overall rounder requiredPercent total =>
    rw [hm] at hnonneg
    obtain ⟨s, p, hs, hp, rfl⟩ := (verdict_overall_eq_ok hm).mp hr
    obtain ⟨s', p', hs', hp', rfl⟩ := (verdict_overall_eq_ok hm).mp hr'
    obtain ⟨hw, hw'⟩ := hwhole _ _ _ hm
    have hsum := hg.sum_le ⟨ht, hw⟩ ⟨ht', hw'⟩ hs hs'
    have hpercent := percentOfTotal_mono hsum hnonneg hp hp'
    exact ⟨⟨s, s', Value.number?_toValue s, Value.number?_toValue s', hsum⟩, hpercent,
      fun hpass => Number.le_trans hpass (Number.float_le_float.mpr hpercent)⟩

end Rule

end ExamAdmission
