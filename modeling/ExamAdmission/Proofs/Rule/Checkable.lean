import ExamAdmission.Proofs.Rounding.PercentRange
import ExamAdmission.Proofs.Rule.Building
import ExamAdmission.Proofs.Rule.Counting

/-! Verdicts that a rule can always give. The points of its assignments have to be within reach of
doubles, and percents have to be rounded to no more places than the digits of a decimal allow. -/

namespace ExamAdmission

attribute [local irreducible] rangeEnd Binary64.unit

namespace Value

variable {v w : Value}

theorem IsWorth.tracks (h : w.IsWorth) :
    ∃ b, w.number? = some b ∧ b.Tracks 0 w.units ∧ 0 < w.units := by
  obtain ⟨b, hb, hf, h0, hz⟩ := h
  rw [units_of_number? hb]
  refine ⟨b, hb, .self 0 h0 hf, Nat.pos_of_ne_zero fun hzero => ?_⟩
  rw [Bool.eq_false_iff, Ne, Number.isZero_iff, Number.position?_units h0 hf, hzero] at hz
  exact hz rfl

theorem IsWorth.isPoints_of_atMost (hw : w.IsWorth) (h0 : (int 0).AtMost v) (h : v.AtMost w) :
    v.IsPoints ∧ v.units ≤ w.units := by
  obtain ⟨b, hb, hfb, -, -⟩ := hw
  have ⟨a, _, ha, _⟩ := h
  have h0a := h0.number_le rfl ha
  have hab := h.number_le ha hb
  have hfa := Number.isFinite_of_le h0a hab hfb
  rw [units_of_number? ha, units_of_number? hb]
  exact ⟨⟨a, ha, h0a, hfa⟩, Number.units_le h0a hab hfa hfb⟩

end Value

/-- Every entry is for an assignment and between zero and what that is worth. -/
def Table.UpTo (table maxPoints : Table Value) : Prop :=
  ∀ e ∈ table, ∃ w, maxPoints.find? e.1.key = some w ∧ (Value.int 0).AtMost e.2 ∧ e.2.AtMost w

/-- A rule whose points can be looked up, with at most 2^48 assignments. -/
structure Rule.Checkable (rule : Rule) : Prop where
  sound : rule.Sound
  wellLabelled : rule.basis.WellLabelled
  length : rule.basis.maxPoints.length ≤ 2 ^ 48
  total : ∀ rounder required total, rule.measure = .overall rounder required total →
    Value.sum rule.basis.maxPoints.values = .ok total

/-- Points that can be calculated with: those of a share rule have a double each, and those of an
overall rule together stay below half of the range. -/
def Rule.PointsInRange (rule : Rule) : Prop :=
  match rule.measure with
  | .nothing => True
  | .share .. => ∀ v ∈ rule.basis.maxPoints.values, ∃ x, v.toBinary64 = .ok x
  | .overall .. => 2 * (rule.basis.maxPoints.values.map Value.units).sum < rangeEnd

/-- A total is below half of the range, or so great that the sum of all points is no double. Between
the two it would depend on the order of the summands whether they leave the range. -/
def Rule.TotalSettled (rule : Rule) : Prop :=
  match rule.measure with
  | .overall _ _ total => 2 * (rule.basis.maxPoints.values.map Value.units).sum < rangeEnd ∨
    ∀ negative m, total.toBinary64 ≠ .ok (.finite negative m)
  | _ => True

/-- Measures by a number of passed assignments sum no points. -/
def Measure.isShare : Measure → Bool
  | .share _ _ _ => true
  | _ => false

theorem Measure.ne_nothing_of_isShare {measure : Measure} (h : measure.isShare = true) :
    measure ≠ .nothing := by
  rintro rfl
  cases h

theorem Rule.totalSettled_of_isShare {rule : Rule} (h : rule.measure.isShare = true) :
    rule.TotalSettled := by
  unfold TotalSettled
  cases hm : rule.measure with
  | overall _ _ _ =>
    rw [hm] at h
    cases h
  | _ => trivial

/-- Percents are rounded to at most 25 places, if they are rounded at all. -/
def Measure.Fits : Measure → Prop
  | .nothing => True
  | .share rounder _ _ => rounder.Fits
  | .overall rounder _ _ => rounder.Fits

section Share

variable {rounder : Rounder} {requiredPercent : Binary64} {table maxPoints : Table Value}

theorem exists_passedAssignments
    (h : ∀ e ∈ maxPoints, ∃ b,
      passesAssignment rounder requiredPercent table e.1.key e.2 = .ok b) :
    ∃ forms, passedAssignments rounder requiredPercent table maxPoints = .ok forms ∧
      forms.length ≤ maxPoints.length := by
  have hforms := passedAssignments_eq_ok.mpr ⟨h, rfl⟩
  exact ⟨_, hforms, length_passedAssignments_le hforms⟩

theorem percentOf_of_passedAssignments {forms : List Value}
    (h : passedAssignments rounder requiredPercent table maxPoints = .ok forms) :
    ∀ e ∈ maxPoints, ∃ p x,
      percentOf ((table.find? e.1.key).getD (.float (.zero false))) e.2 = .ok p ∧
        rounder.round p = .ok x := by
  intro e he
  obtain ⟨b, hb⟩ := (passedAssignments_eq_ok.mp h).1 e he
  obtain ⟨p, x, hp, hx, -⟩ := passesAssignment_eq_ok.mp hb
  exact ⟨p, x, hp, hx⟩

end Share

theorem exists_percentOfQuota {count : ℕ} {quota : Binary64} (hcount : count ≤ 2 ^ 53)
    (h0 : .zero false ≤ quota) : ∃ p, percentOfQuota count quota = .ok p := by
  unfold percentOfQuota
  by_cases hz : (Number.float quota).isZero = true
  · exact ⟨hundred, if_pos hz⟩
  rw [if_neg hz]
  have hz' : (Number.float quota).isZero = false := by simpa using hz
  obtain ⟨negative, m, hm, -⟩ := Binary64.ofInt?_of_le (n := count) (by simpa using hcount)
  have hx := Value.toBinary64_orZero (v := .int count) rfl
    (Number.int_le_int.mpr (Int.natCast_nonneg count)) (Number.toBinary64_int.mpr hm)
  obtain ⟨c, e, hd, -⟩ := Decimal.ofBinary64_finite false m
  obtain ⟨h, j, hmul, -⟩ := Decimal.scales_mul_hundred.finite false c e
  have hdiv : ∃ q, (Decimal.finite false h j).div (.ofBinary64 quota) = .ok q := by
    rcases Number.decimal_of_pos (Number.zero_le_float.mpr h0) hz' rfl with hinf | ⟨n, f, hn, hfin⟩
    · rw [hinf]
      exact ⟨_, rfl⟩
    · obtain ⟨q, k, hq, -⟩ := (Decimal.scales_div f hn).finite false h j
      exact ⟨_, hfin ▸ hq⟩
  obtain ⟨q, hq⟩ := hdiv
  exact ⟨_, (percentOf_eq_ok rfl).mpr ⟨hz', _, _, _, q, hx, hd ▸ hmul, rfl, hq, rfl⟩⟩

namespace Rule.Checkable

variable {rule : Rule} {table : Table Value} {rounder : Rounder} {required : Binary64}

theorem isPoints (h : rule.Checkable) (ht : table.UpTo rule.basis.maxPoints) :
    ∀ e ∈ table, ∃ w, rule.basis.maxPoints.find? e.1.key = some w ∧ e.2.IsPoints ∧
      e.2.units ≤ w.units := by
  intro e he
  obtain ⟨w, hw, h0, hle⟩ := ht e he
  exact ⟨w, hw, (h.sound.isWorth w (Table.mem_values_of_find? hw)).isPoints_of_atMost h0 hle⟩

theorem percentOf_points (h : rule.Checkable) (ht : table.UpTo rule.basis.maxPoints)
    {e : Label × Value} (he : e ∈ rule.basis.maxPoints) {y : Binary64}
    (hy : e.2.toBinary64 = .ok y) : ∃ p,
      percentOf ((table.find? e.1.key).getD (.float (.zero false))) e.2 = .ok p ∧ p.InLimit := by
  obtain ⟨b, hb, hfb, h0b, hz⟩ := h.sound.isWorth e.2 (List.mem_map_of_mem he)
  have hachieved : ∃ a, ((table.find? e.1.key).getD (.float (.zero false))).number? = some a ∧
      .int 0 ≤ a ∧ a ≤ b := by
    cases hf : table.find? e.1.key with
    | none =>
      exact ⟨_, rfl, Number.zero_le_float_zero, Number.le_trans (Number.float_zero_le false) h0b⟩
    | some v =>
      obtain ⟨front, label, back, rfl, hkey⟩ := Table.exists_of_find? hf
      obtain ⟨w, hw, h0, hle⟩ := ht (label, v) (by simp)
      have hmax := Table.find?_of_mem h.wellLabelled.nodup he
      rw [hkey] at hw
      cases hmax.symm.trans hw
      have ⟨a, _, ha, _⟩ := hle
      exact ⟨a, ha, h0.number_le rfl ha, hle.number_le ha hb⟩
  obtain ⟨a, ha, h0, hab⟩ := hachieved
  rw [Value.toBinary64_of_number? hb] at hy
  obtain ⟨t, n, rfl⟩ := hfb.toBinary64 hy
  obtain ⟨rfl, -⟩ := Number.units_pos h0b hz hy
  have hfa := Number.isFinite_of_le h0 hab hfb
  obtain ⟨s, m, hx, hle⟩ := Number.exists_toBinary64_of_le h0 hab hfa hfb hy
  exact percentOf_inLimit ha hb h0 hx h0b hz hy (by omega)

theorem upTo_self (h : rule.Checkable) : rule.basis.maxPoints.UpTo rule.basis.maxPoints := by
  intro e he
  have hworth := h.sound.isWorth e.2 (List.mem_map_of_mem he)
  obtain ⟨b, hb, hf, h0, -⟩ := hworth
  exact ⟨e.2, Table.find?_of_mem h.wellLabelled.nodup he, ⟨_, b, rfl, hb, h0⟩, .refl ⟨b, hb, hf⟩⟩

theorem sum_tracks (h : rule.Checkable)
    (hrange : 2 * (rule.basis.maxPoints.values.map Value.units).sum < rangeEnd)
    (ht : table.UpTo rule.basis.maxPoints) (hn : table.keys.Nodup) :
    ∃ s, Value.sum table.values = .ok s ∧
      s.Tracks (2 * rule.basis.maxPoints.length) (table.values.map Value.units).sum ∧
      (table.values.map Value.units).sum ≤ (rule.basis.maxPoints.values.map Value.units).sum := by
  have hpoints := h.isPoints ht
  have hunits : (table.values.map Value.units).sum ≤
      (rule.basis.maxPoints.values.map Value.units).sum := by
    refine Table.sum_values_le Value.units hn fun e he => ?_
    obtain ⟨w, hw, -, hle⟩ := hpoints e he
    exact ⟨w, hw, hle⟩
  have hlength : table.values.length ≤ rule.basis.maxPoints.length := by
    have hcount := Table.sum_values_le (fun _ => 1) hn fun e he => by
      obtain ⟨w, hw, -, -⟩ := hpoints e he
      exact ⟨w, hw, le_rfl⟩
    simpa [Table.values, Function.comp_def] using hcount
  have hvalues : ∀ v ∈ table.values, v.IsPoints := by
    intro v hv
    obtain ⟨e, he, rfl⟩ := List.mem_map.mp hv
    obtain ⟨w, -, hv, -⟩ := hpoints e he
    exact hv
  have hmax := h.length
  obtain ⟨s, hs, htracks⟩ := Value.sum_tracks hvalues (by omega) (by omega)
  exact ⟨s, hs, ⟨htracks.nonneg, htracks.finite, htracks.within.mono (by omega)⟩, hunits⟩

theorem sum_pos (h : rule.Checkable) (hne : rule.basis.maxPoints ≠ []) :
    0 < (rule.basis.maxPoints.values.map Value.units).sum := by
  obtain ⟨e, rest, hrest⟩ := List.exists_cons_of_ne_nil hne
  have hvalue : e.2 ∈ rule.basis.maxPoints.values := by simp [hrest, Table.values]
  obtain ⟨b, -, -, hpos⟩ := (h.sound.isWorth e.2 hvalue).tracks
  have hsum := List.le_sum_of_mem (List.mem_map_of_mem (f := Value.units) hvalue)
  omega

theorem exists_percentOfTotal (h : rule.Checkable) (ht : table.UpTo rule.basis.maxPoints)
    (hn : table.keys.Nodup) (hfits : rule.basis.maxPoints = [] ∨ rounder.Fits)
    (hrange : 2 * (rule.basis.maxPoints.values.map Value.units).sum < rangeEnd) {total : Number}
    (htotal : Value.sum rule.basis.maxPoints.values = .ok total) :
    ∃ s p, Value.sum table.values = .ok s ∧ percentOfTotal rounder s total = .ok p := by
  obtain ⟨s, hs, hstracks, hle⟩ := h.sum_tracks hrange ht hn
  refine ⟨s, ?_⟩
  by_cases hnil : rule.basis.maxPoints = []
  · rw [hnil] at htotal
    cases htotal
    exact ⟨hundred, hs, if_pos (by rw [Number.isZero_int]; rfl)⟩
  · obtain ⟨t, ht', httracks, -⟩ := h.sum_tracks hrange h.upTo_self h.wellLabelled.nodup
    cases htotal.symm.trans ht'
    have hpos := h.sum_pos hnil
    have hmax := h.length
    obtain ⟨p, hp, hlimit⟩ := hstracks.percentOf_inLimit httracks (Value.number?_toValue s)
      (Value.number?_toValue total) (by omega) hpos hle hrange
    obtain ⟨x, hx⟩ := Rounder.exists_round_of_fits (hfits.resolve_left hnil) hlimit
    refine ⟨x, hs, ?_⟩
    unfold percentOfTotal
    rw [httracks.isZero_eq_false hpos, hp]
    exact hx

theorem exists_verdict (h : rule.Checkable) (hmeasure : rule.measure ≠ .nothing)
    (hfits : rule.basis.maxPoints = [] ∨ rule.measure.Fits ∧ rule.PointsInRange)
    (ht : table.UpTo rule.basis.maxPoints) (hn : table.keys.Nodup) :
    ∃ r, rule.verdict table = .ok r := by
  have hnonneg := h.sound.nonneg
  unfold PointsInRange at hfits
  cases hm : rule.measure with
  | nothing => exact absurd hm hmeasure
  | share rounder requiredPercent quota =>
    rw [hm] at hfits hnonneg
    have hpasses : ∀ e ∈ rule.basis.maxPoints, ∃ b,
        passesAssignment rounder requiredPercent table e.1.key e.2 = .ok b := by
      intro e he
      obtain ⟨hrounder, hdoubles⟩ := hfits.resolve_left (List.ne_nil_of_mem he)
      obtain ⟨y, hy⟩ := hdoubles e.2 (List.mem_map_of_mem he)
      obtain ⟨p, hp, hlimit⟩ := h.percentOf_points ht he hy
      obtain ⟨x, hx⟩ := Rounder.exists_round_of_fits hrounder hlimit
      exact ⟨_, passesAssignment_eq_ok.mpr ⟨p, x, hp, hx, rfl⟩⟩
    obtain ⟨forms, hforms, hlength⟩ := exists_passedAssignments hpasses
    have hcount : forms.length ≤ 2 ^ 53 := hlength.trans (h.length.trans (by norm_num))
    obtain ⟨p, hp⟩ := exists_percentOfQuota hcount hnonneg
    exact ⟨_, (verdict_share_eq_ok hm).mpr ⟨forms, p, hforms, hp, rfl⟩⟩
  | overall rounder requiredPercent total =>
    rw [hm] at hfits
    have hrange : 2 * (rule.basis.maxPoints.values.map Value.units).sum < rangeEnd := by
      rcases hfits with hnil | ⟨-, hrange⟩
      · rw [hnil]
        exact rangeEnd_pos
      · exact hrange
    obtain ⟨s, p, hs, hp⟩ :=
      h.exists_percentOfTotal ht hn (hfits.imp_right And.left) hrange (h.total _ _ _ hm)
    exact ⟨_, (verdict_overall_eq_ok hm).mpr ⟨s, p, hs, hp, rfl⟩⟩

theorem isZero_total_eq_false (h : rule.Checkable) (hne : rule.basis.maxPoints ≠ [])
    {total : Number} (htotal : Value.sum rule.basis.maxPoints.values = .ok total)
    (hsettled : 2 * (rule.basis.maxPoints.values.map Value.units).sum < rangeEnd ∨
      ∀ negative m, total.toBinary64 ≠ .ok (.finite negative m)) : total.isZero = false := by
  rcases hsettled with hrange | hoverflow
  · obtain ⟨t, ht, htracks, -⟩ := h.sum_tracks hrange h.upTo_self h.wellLabelled.nodup
    cases htotal.symm.trans ht
    exact htracks.isZero_eq_false (h.sum_pos hne)
  · refine Bool.eq_false_iff.mpr fun hz => ?_
    obtain ⟨negative, m, hzero⟩ := Number.toBinary64_of_isZero hz
    exact hoverflow negative m hzero

/-- Who has all points has a result only by a rounder that fits and without overflow. -/
theorem fits_of_verdict (h : rule.Checkable) (hne : rule.basis.maxPoints ≠ [])
    (hsettled : rule.TotalSettled) {r : CheckResult}
    (hr : rule.verdict rule.basis.maxPoints = .ok r) :
    rule.measure.Fits ∧ rule.PointsInRange := by
  have hnonneg := h.sound.nonneg
  unfold TotalSettled at hsettled
  unfold PointsInRange
  -- in both cases the percent that is rounded is that of something other than zero of itself
  cases hm : rule.measure with
  | nothing => exact ⟨trivial, trivial⟩
  | share rounder requiredPercent quota =>
    obtain ⟨forms, _, hforms, -⟩ := (verdict_share_eq_ok hm).mp hr
    have hself : ∀ e ∈ rule.basis.maxPoints, rounder.Fits ∧ ∃ x, e.2.toBinary64 = .ok x := by
      intro e he
      obtain ⟨p, x, hp, hx⟩ := percentOf_of_passedAssignments hforms e he
      rw [Table.find?_of_mem h.wellLabelled.nodup he, Option.getD_some] at hp
      obtain ⟨b, hb, -, h0, -⟩ := h.sound.isWorth e.2 (List.mem_map_of_mem he)
      obtain ⟨rfl, n, hn⟩ := percentOf_self hb h0 hp
      exact ⟨Rounder.fits_of_hundred hx, _, (Value.toBinary64_of_number? hb).trans hn⟩
    obtain ⟨e, rest, hrest⟩ := List.exists_cons_of_ne_nil hne
    refine ⟨(hself e (by simp [hrest])).1, fun v hv => ?_⟩
    obtain ⟨e, he, rfl⟩ := List.mem_map.mp hv
    exact (hself e he).2
  | overall rounder requiredPercent total =>
    rw [hm] at hnonneg hsettled
    obtain ⟨s, x, hs, hx, -⟩ := (verdict_overall_eq_ok hm).mp hr
    cases hs.symm.trans (h.total _ _ _ hm)
    unfold percentOfTotal at hx
    rw [h.isZero_total_eq_false hne hs hsettled] at hx
    obtain ⟨p, hp, hround⟩ := bind_eq_ok.mp hx
    obtain ⟨rfl, n, hn⟩ := percentOf_self (Value.number?_toValue total) hnonneg hp
    exact ⟨Rounder.fits_of_hundred hround,
      hsettled.resolve_right fun hoverflow => hoverflow false n hn⟩

end Rule.Checkable

end ExamAdmission
