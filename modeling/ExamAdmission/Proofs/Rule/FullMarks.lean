import ExamAdmission.Proofs.Document.Grid
import ExamAdmission.Proofs.Rule.Monotone
import ExamAdmission.Proofs.Rule.Quota
import ExamAdmission.Proofs.Rule.Returns
import ExamAdmission.Proofs.Rule.ShareChecks

/-! Full marks. Who has all points of every assignment passes each rule of a course of whole points,
whatever it asks for. -/

namespace ExamAdmission

attribute [local irreducible] rangeEnd Binary64.unit

theorem Value.place_congr {v w : Value} {a b : Number} (hv : v.number? = some a)
    (hw : w.number? = some b) (h : a.position? = b.position?) : v.place = w.place := by
  simp only [place, hv, hw, Option.bind_some, h]

namespace Table

variable {table maxPoints : Table Value}

/-- For each key of a table of points the same points, and none for any other key. -/
structure FullFor (table maxPoints : Table Value) : Prop where
  keys : table.keys ⊆ maxPoints.keys
  points : ∀ key w, maxPoints.find? key = some w → ∃ v a b, table.find? key = some v ∧
    v.number? = some a ∧ w.number? = some b ∧ a.position? = b.position?

theorem FullFor.places_perm (h : table.FullFor maxPoints) (hn : table.keys.Nodup)
    (hn' : maxPoints.keys.Nodup) :
    (table.values.map Value.place).Perm (maxPoints.values.map Value.place) := by
  have hmem : ∀ key, key ∈ table.keys ↔ key ∈ maxPoints.keys := by
    intro key
    refine ⟨fun hkey => h.keys hkey, fun hkey => ?_⟩
    obtain ⟨w, hw⟩ := mem_keys_iff.mp hkey
    obtain ⟨v, _, _, hv, -⟩ := h.points key w hw
    exact mem_keys_iff.mpr ⟨v, hv⟩
  have hkeys : table.keys.Perm maxPoints.keys := (List.perm_ext_iff_of_nodup hn hn').mpr hmem
  have hplace : ∀ key ∈ maxPoints.keys,
      (table.find? key).map Value.place = (maxPoints.find? key).map Value.place := by
    intro key hkey
    obtain ⟨w, hw⟩ := mem_keys_iff.mp hkey
    obtain ⟨v, a, b, hv, ha, hb, hab⟩ := h.points key w hw
    rw [hv, hw, Option.map_some, Option.map_some, Value.place_congr ha hb hab]
  rw [values_eq_filterMap hn, values_eq_filterMap hn', List.map_filterMap, List.map_filterMap,
    ← List.filterMap_congr hplace]
  exact hkeys.filterMap _

theorem FullFor.onGrid {step : ℕ} (h : table.FullFor maxPoints) (hn : table.keys.Nodup)
    (hn' : maxPoints.keys.Nodup) (hgrid : Value.OnGrid step maxPoints.values) :
    Value.OnGrid step table.values := by
  have hperm := h.places_perm hn hn'
  refine ⟨fun v hv => ?_, fun v hv => ?_, ?_⟩
  · obtain ⟨e, he, rfl⟩ := List.mem_map.mp hv
    have hfind := find?_of_mem hn he
    obtain ⟨w, hw⟩ := mem_keys_iff.mp (h.keys (List.mem_map_of_mem he))
    obtain ⟨v, a, b, hv, ha, hb, hab⟩ := h.points _ w hw
    cases hfind.symm.trans hv
    obtain ⟨k, hk⟩ := (hgrid.finite w (mem_values_of_find? hw)).of_number? hb
    exact ⟨a, ha, k, hab.trans hk⟩
  · obtain ⟨w, hw, hplace⟩ := List.mem_map.mp (hperm.mem_iff.mp (List.mem_map_of_mem hv))
    exact hplace ▸ hgrid.multiple w hw
  · have hsum := (hperm.map Int.natAbs).sum_eq
    rw [List.map_map, List.map_map] at hsum
    exact hsum.trans_le hgrid.size

end Table

/-- A course of whole points, few enough together for doubles to count them. Each of its fewer than
2^50 assignments has an identifier of its own. -/
structure WholeCourse (assignments : List Assignment) : Prop where
  grid : Value.OnGrid Binary64.unit (assignments.map Assignment.points)
  few : assignments.length < 2 ^ 50
  distinct : (assignments.map fun a => a.id.key?).Nodup

/-- The last entry for each assignment has all of its points. -/
def FullMarks (assignments : List Assignment) (assessments : List Assessment) : Prop :=
  ∀ a ∈ assignments, ∀ key, a.id.key? = some key → ∃ entry,
    lastAssessment? assessments key = some entry ∧ entry.achievedPoints.same a.points = true

theorem Value.OnGrid.exists_toBinary64 {step : ℕ} {vs : List Value} {v : Value} {a : Number}
    (h : OnGrid step vs) (hstep : IsStep step) (hv : v ∈ vs) (ha : v.number? = some a) :
    ∃ negative m, a.toBinary64 = .ok (.finite negative m) := by
  obtain ⟨p, hp⟩ := (h.finite v hv).of_number? ha
  have hle := List.le_sum_of_mem (List.mem_map_of_mem (f := fun v => v.place.natAbs) hv)
  rw [place_of_number? ha hp] at hle
  exact Number.exists_toBinary64 hp hstep (hle.trans h.size)

namespace WholeCourse

variable {assignments : List Assignment} {header : RuleHeader} {basis : RuleBasis}

theorem isFinite (h : WholeCourse assignments) : ∀ a ∈ assignments, a.points.IsFinite := fun _ ha =>
  h.grid.finite _ (List.mem_map_of_mem ha)

theorem onGrid_maxPoints (h : WholeCourse assignments)
    (hbasis : RuleBasis.build header assignments = .ok basis) :
    Value.OnGrid Binary64.unit basis.maxPoints.values := by
  obtain ⟨_, entries, -, hrel, -, hentries, -, hmax, -, -⟩ := RuleBasis.build_eq_ok hbasis
  have hvalues : basis.relevant.map Assignment.points = entries.map Prod.snd := by
    rw [← List.forall₂_eq_eq_eq, List.forall₂_map_left_iff, List.forall₂_map_right_iff]
    exact hentries.imp fun _ _ he => he.2
  have hsub : (basis.relevant.map Assignment.points).Sublist
      (assignments.map Assignment.points) := by
    rw [hrel]
    exact List.filter_sublist.map _
  rw [hmax]
  exact (h.grid.sublist (hvalues ▸ hsub)).ofList

theorem length_maxPoints (h : WholeCourse assignments)
    (hbasis : RuleBasis.build header assignments = .ok basis) :
    basis.maxPoints.length = basis.relevant.length := by
  obtain ⟨_, _, -, hrel, -⟩ := RuleBasis.build_eq_ok hbasis
  have hsub : (basis.relevant.map fun a => a.id.key?).Sublist
      (assignments.map fun a => a.id.key?) := by
    rw [hrel]
    exact List.filter_sublist.map _
  exact (RuleBasis.length_maxPoints_eq_iff hbasis).mpr (h.distinct.sublist hsub)

theorem length_relevant (h : WholeCourse assignments)
    (hbasis : RuleBasis.build header assignments = .ok basis) :
    basis.relevant.length < 2 ^ 53 := by
  obtain ⟨_, _, -, hrel, -⟩ := RuleBasis.build_eq_ok hbasis
  have hle : basis.relevant.length ≤ assignments.length := hrel ▸ List.length_filter_le _ _
  have hfew := h.few
  omega

end WholeCourse

namespace Rule

section Verdict

variable {rounder : Rounder} {required : Binary64} {table maxPoints : Table Value}

theorem exists_allPassed
    (h : ∀ e ∈ maxPoints, passesAssignment rounder required table e.1.key e.2 = .ok true) :
    ∃ forms, passedAssignments rounder required table maxPoints = .ok forms ∧
      forms.length = maxPoints.length := by
  have hall : maxPoints.filter (isPassed rounder required table) = maxPoints :=
    List.filter_eq_self.mpr fun e he => isPassed_iff.mpr (h e he)
  refine ⟨_, passedAssignments_eq_ok.mpr ⟨fun e he => ⟨true, h e he⟩, rfl⟩, ?_⟩
  rw [hall, List.length_map]

theorem required_le {p x : Binary64} (hp : p.IsPercent) (hx : hundred ≤ x) :
    Number.float p ≤ .float x :=
  Number.float_le_float.mpr (Binary64.le_trans hp.le_hundred hx)

theorem passesAssignment_full (hfull : table.FullFor maxPoints) (hn : maxPoints.keys.Nodup)
    (hworth : ∀ v ∈ maxPoints.values, v.IsWorth)
    (hgrid : Value.OnGrid Binary64.unit maxPoints.values) (hrounder : rounder.Fits)
    (hrequired : required.IsPercent) : ∀ e ∈ maxPoints,
      passesAssignment rounder required table e.1.key e.2 = .ok true := by
  intro e he
  have hvalue : e.2 ∈ maxPoints.values := List.mem_map_of_mem he
  obtain ⟨v, a, b, hv, ha, hb, hplace⟩ := hfull.points e.1.key e.2 (Table.find?_of_mem hn he)
  obtain ⟨_, hb', -, h0, hz⟩ := hworth e.2 hvalue
  cases hb.symm.trans hb'
  obtain ⟨negative, m, hx⟩ := hgrid.exists_toBinary64 isStep_unit hvalue hb
  have hp := percentOf_full ha hb hplace h0 hz hx
  obtain ⟨x, hround, hle⟩ := Rounder.exists_round_hundred hrounder
  exact passesAssignment_eq_ok.mpr ⟨_, x, by rwa [hv], hround, required_le hrequired hle⟩

theorem exists_percentOfTotal_full (hfull : table.FullFor maxPoints) (hn : maxPoints.keys.Nodup)
    (hn' : table.keys.Nodup) (hgrid : Value.OnGrid Binary64.unit maxPoints.values)
    (hrounder : rounder.Fits) {total : Number} (htotal : Value.sum maxPoints.values = .ok total)
    (h0 : .int 0 ≤ total) :
    ∃ s x, Value.sum table.values = .ok s ∧ percentOfTotal rounder s total = .ok x ∧
      hundred ≤ x := by
  obtain ⟨s, hs, hsum⟩ := (hfull.onGrid hn' hn hgrid).exists_isSum isStep_unit
  have htotalsum := hgrid.isSum isStep_unit htotal
  -- the same place only: one sum may be whole and the other a double
  have hplace : s.position? = total.position? := by
    rw [hsum.position, htotalsum.position, (hfull.places_perm hn' hn).sum_eq]
  refine ⟨s, ?_⟩
  unfold percentOfTotal
  cases hz : total.isZero with
  | true => exact ⟨hundred, hs, rfl, Binary64.le_refl hundred_ne_nan⟩
  | false =>
    obtain ⟨negative, m, hx⟩ :=
      Number.exists_toBinary64 htotalsum.position isStep_unit hgrid.natAbs_sum_le
    have hp :=
      percentOf_full (Value.number?_toValue s) (Value.number?_toValue total) hplace h0 hz hx
    obtain ⟨x, hround, hle⟩ := Rounder.exists_round_hundred hrounder
    exact ⟨x, hs, bind_eq_ok.mpr ⟨_, hp, hround⟩, hle⟩

end Verdict

variable {rule : Rule} {which : RuleClass} {config : RuleConfig} {assignments : List Assignment}
  {assessments : List Assessment}

theorem fullFor_contributions {header : RuleHeader}
    (h : RuleBasis.build header assignments = .ok rule.basis)
    (hworth : ∀ v ∈ rule.basis.maxPoints.values, v.IsWorth)
    (hfull : FullMarks assignments assessments) :
    (Table.ofList (assessments.filterMap rule.contribution?)).FullFor rule.basis.maxPoints := by
  refine ⟨fun key hkey => ?_, fun key w hw => ?_⟩
  · obtain ⟨e, he, rfl⟩ := List.mem_map.mp (Table.mem_keys_ofList.mp hkey)
    obtain ⟨a, -, hentry⟩ := List.mem_filterMap.mp he
    obtain ⟨label, hlabel, rfl⟩ := Option.map_eq_some_iff.mp hentry
    exact (label?_eq_some.mp hlabel).2.2.2.2
  · have hkey : key ∈ rule.basis.maxPoints.keys := Table.mem_keys_iff.mpr ⟨w, hw⟩
    obtain ⟨b, hb, -, -, hz⟩ := hworth w (Table.mem_values_of_find? hw)
    obtain ⟨a, ha, hid, rfl⟩ :=
      maximum?_isSome ((RuleBasis.find?_maxPoints h key).symm.trans hw)
    obtain ⟨entry, hentry, hsame⟩ := hfull a (mem_assignmentsOfType.mp ha).1 key hid
    obtain ⟨c, hc, hplace⟩ := Value.number?_of_same hsame hb
    have hholds : entry.achievedPoints.holds = true := by
      rw [Value.holds_of_number? hc, Number.isZero, hplace, ← Number.isZero, hz]
      rfl
    refine ⟨entry.achievedPoints, c, b, ?_, hc, hb, hplace⟩
    rw [find?_contributions (RuleBasis.wellLabelled_build h) hkey, hentry, Option.map_some,
      Value.orZeroPoints, if_pos hholds]

theorem quota_bounds {rounder : Rounder} {required quota : Binary64}
    (hcourse : WholeCourse assignments) (hconfig : config.InRange)
    (h : build which config assignments = .ok rule)
    (hm : rule.measure = .share rounder required quota) :
    .int 0 ≤ Number.float quota ∧ Number.float quota ≤ .int rule.basis.relevant.length := by
  obtain ⟨hbasis, hmeasure⟩ := build_eq_ok h
  have hnonneg := (sound_build hconfig hcourse.isFinite h).nonneg
  rw [hm] at hnonneg hmeasure
  rcases hmeasure with hm' | ⟨terms, _, _, q, hterms, -, hq, hm'⟩ | ⟨_, _, _, -, -, -, hm'⟩
  · cases hm'
  · cases hm'
    exact ⟨Number.zero_le_float.mpr hnonneg, quota_le_count (isPercent_shareTerms hconfig hterms).1
      (hcourse.length_relevant hbasis) hq⟩
  · cases hm'

/-- Full marks pass every rule that measures anything. -/
theorem exists_check_full (hcourse : WholeCourse assignments) (hconfig : config.InRange)
    (hfits : config.Fits) (h : build which config assignments = .ok rule)
    (hmeasure : rule.measure ≠ .nothing) (hlabelled : ∀ a ∈ assessments, a.Labelled)
    (hfull : FullMarks assignments assessments) :
    ∃ r, (rule.check assessments).result = .ok r ∧ r.passed = true := by
  have hsound := sound_build hconfig hcourse.isFinite h
  have hrounder := (fits_build h hmeasure).mpr hfits
  obtain ⟨hbasis, hbuilt⟩ := build_eq_ok h
  have hgrid := hcourse.onGrid_maxPoints hbasis
  have hn := (RuleBasis.wellLabelled_build hbasis).nodup
  have htable := fullFor_contributions hbasis hsound.isWorth hfull
  simp only [check_eq_ok, and_iff_right hlabelled]
  rcases hbuilt with hm | ⟨terms, _, rounder, quota, hterms, -, -, hm⟩ |
    ⟨terms, rounder, total, hterms, -, htotal, hm⟩
  · exact absurd hm hmeasure
  · rw [hm] at hrounder
    obtain ⟨forms, hforms, hlength⟩ := exists_allPassed (passesAssignment_full htable hn
      hsound.isWorth hgrid hrounder (isPercent_shareTerms hconfig hterms).2)
    rw [hcourse.length_maxPoints hbasis] at hlength
    obtain ⟨h0, hquota⟩ := quota_bounds hcourse hconfig h hm
    obtain ⟨p, hp⟩ := exists_percentOfQuota
      (hlength ▸ (hcourse.length_relevant hbasis).le) (Number.zero_le_float.mp h0)
    refine ⟨_, (verdict_share_eq_ok hm).mpr ⟨forms, p, hforms, hp, rfl⟩, ?_⟩
    rw [← hlength] at hquota
    exact hquota
  · have h0 := hsound.nonneg
    rw [hm] at hrounder h0
    obtain ⟨s, x, hs, hx, hle⟩ := exists_percentOfTotal_full htable hn
      (Table.nodup_keys_ofList _) hgrid hrounder htotal h0
    simp only [verdict, hm, bind_eq_ok]
    exact ⟨_, ⟨s, hs, x, hx, rfl⟩, required_le (isPercent_overallTerms hconfig hterms) hle⟩

end Rule

end ExamAdmission
