import ExamAdmission.Proofs.Config.Places
import ExamAdmission.Proofs.Rule.Checkable

/-! Which rules return a result for every participant. Percents of up to 25 places can always be
rounded; with one place more, already the full points of an assignment cannot. -/

namespace ExamAdmission

attribute [local irreducible] rangeEnd Binary64.unit

namespace Rule

variable {rule : Rule}

/-- An assessment as the course has them: for an assignment of the rule there are no points yet, or
as many as the assignment allows. -/
structure Ordinary (rule : Rule) (a : Assessment) : Prop where
  labelled : a.Labelled
  points : ∀ label w, rule.label? a = some label →
    rule.basis.maxPoints.find? label.key = some w → a.achievedPoints = .null ∨
      (Value.int 0).AtMost a.achievedPoints ∧ a.achievedPoints.AtMost w

/-- All points in every assignment. -/
def fullPoints (rule : Rule) : List Assessment :=
  rule.basis.maxPoints.map fun e => ⟨.null, e.1.form, .null, .null, e.2, .bool false⟩

theorem Sound.upTo_entries (h : rule.Sound) {assessments : List Assessment}
    (hA : ∀ a ∈ assessments, rule.Ordinary a) :
    (Table.ofList (assessments.filterMap rule.contribution?)).UpTo rule.basis.maxPoints := by
  intro e he
  obtain ⟨entry, hentry, hkey, hvalue⟩ := Table.mem_ofList he
  obtain ⟨a, ha, hcontribution⟩ := List.mem_filterMap.mp hentry
  obtain ⟨label, hlabel, rfl⟩ := Option.map_eq_some_iff.mp hcontribution
  obtain ⟨w, hw⟩ := Table.mem_keys_iff.mp (label?_eq_some.mp hlabel).2.2.2.2
  rw [← hkey, ← hvalue]
  refine ⟨w, hw, ?_⟩
  have hworth := h.isWorth w (Table.mem_values_of_find? hw)
  obtain ⟨b, hb, -, h0, -⟩ := hworth
  have hzero : (Value.int 0).AtMost (.float (.zero false)) ∧
      (Value.float (.zero false)).AtMost w := by
    refine ⟨⟨_, _, rfl, rfl, ?_⟩, ⟨_, b, rfl, hb, ?_⟩⟩
    · exact Number.zero_le_float_zero
    · exact Number.le_trans (Number.float_zero_le false) h0
  unfold Value.orZeroPoints
  split
  · rename_i hholds
    rcases (hA a ha).points label w hlabel hw with hnull | hpoints
    · rw [hnull] at hholds
      cases hholds
    · exact hpoints
  · exact hzero

theorem Checkable.filterMap_fullPoints (h : rule.Checkable) :
    rule.fullPoints.filterMap rule.contribution? = rule.basis.maxPoints := by
  rw [fullPoints, List.filterMap_map]
  refine (List.filterMap_congr fun e he => ?_).trans (List.filterMap_some)
  have hlabel : rule.label? ⟨.null, e.1.form, .null, .null, e.2, .bool false⟩ = some e.1 := by
    have hkey := (Value.label_eq_ok.mp (h.wellLabelled.labels e he)).2
    have hmem : e.1.key ∈ rule.basis.maxPoints.keys := List.mem_map_of_mem he
    exact label?_eq_some.mpr ⟨rfl, hkey, rfl, h.wellLabelled.known hmem, hmem⟩
  obtain ⟨b, hb, -, -, hz⟩ := h.sound.isWorth e.2 (List.mem_map_of_mem he)
  have hholds : e.2.orZeroPoints = e.2 := if_pos (by rw [Value.holds_of_number? hb, hz]; rfl)
  rw [Function.comp_apply, contribution?, hlabel, Option.map_some, hholds]

theorem Checkable.ordinary_fullPoints (h : rule.Checkable) :
    ∀ a ∈ rule.fullPoints, rule.Ordinary a := by
  intro a ha
  obtain ⟨e, he, rfl⟩ := List.mem_map.mp ha
  have hkey := (Value.label_eq_ok.mp (h.wellLabelled.labels e he)).2
  refine ⟨.inr ⟨_, hkey⟩, fun label w hlabel hw => .inr ?_⟩
  have hsame : e.1.key = label.key :=
    Option.some.inj (hkey.symm.trans (label?_eq_some.mp hlabel).2.1)
  obtain ⟨w', hw', hpoints⟩ := h.upTo_self e he
  rw [hsame] at hw'
  cases hw.symm.trans hw'
  exact hpoints

/-- Every participant gets a result, or the one who has all points does not. -/
theorem Checkable.forall_check_iff (h : rule.Checkable) (hmeasure : rule.measure ≠ .nothing)
    (hsettled : rule.TotalSettled) :
    (∀ A, (∀ a ∈ A, rule.Ordinary a) → ∃ r, (rule.check A).result = .ok r) ↔
      rule.basis.maxPoints = [] ∨ rule.measure.Fits ∧ rule.PointsInRange := by
  constructor
  · intro hreturns
    obtain ⟨r, hr⟩ := hreturns rule.fullPoints h.ordinary_fullPoints
    have hverdict := (check_eq_ok.mp hr).2
    rw [h.filterMap_fullPoints, Table.ofList_of_nodup h.wellLabelled.nodup] at hverdict
    by_cases hnil : rule.basis.maxPoints = []
    · exact .inl hnil
    · exact .inr (h.fits_of_verdict hnil hsettled hverdict)
  · intro hfits A hA
    obtain ⟨r, hr⟩ := h.exists_verdict hmeasure hfits (h.sound.upTo_entries hA)
      (Table.nodup_keys_ofList _)
    exact ⟨r, check_eq_ok.mpr ⟨fun a ha => (hA a ha).labelled, hr⟩⟩

end Rule

/-- A policy of at most 25 decimals, or without rounding. -/
def RoundingPolicy.Fits (policy : RoundingPolicy) : Prop :=
  policy.type = .none ∨ policy.decimals ≤ 25

instance (policy : RoundingPolicy) : Decidable policy.Fits :=
  inferInstanceAs (Decidable (_ ∨ _))

/-- A configuration whose achieved percents are rounded to at most 25 decimals. -/
def RuleConfig.Fits : RuleConfig → Prop
  | .base _ => True
  | .share _ terms => terms.achievedRounding.Fits
  | .overall _ terms => terms.achievedRounding.Fits

instance (config : RuleConfig) : Decidable config.Fits :=
  match config with
  | .base _ => inferInstanceAs (Decidable True)
  | .share _ terms => inferInstanceAs (Decidable terms.achievedRounding.Fits)
  | .overall _ terms => inferInstanceAs (Decidable terms.achievedRounding.Fits)

theorem RoundingPolicy.fits_rounder {policy : RoundingPolicy} {rounder : Rounder}
    (h : policy.rounder = .ok rounder) : rounder.Fits ↔ policy.Fits := by
  rcases rounder_eq_ok h with ⟨htype, rfl⟩ | ⟨htype, bearing, rfl⟩
  · simp [Rounder.Fits, Fits, htype]
  · simp [Rounder.Fits, Fits, htype]

namespace Rule

variable {which : RuleClass} {config : RuleConfig} {assignments : List Assignment} {rule : Rule}

theorem fits_build (h : build which config assignments = .ok rule)
    (hmeasure : rule.measure ≠ .nothing) : rule.measure.Fits ↔ config.Fits := by
  rcases (build_eq_ok h).2 with hm | ⟨terms, _, rounder, _, hterms, hrounder, -, hm⟩ |
    ⟨terms, rounder, _, hterms, hrounder, -, hm⟩
  · exact absurd hm hmeasure
  · rw [hm]
    refine (RoundingPolicy.fits_rounder hrounder).trans ?_
    cases config with
    | share _ t =>
      cases hterms
      rfl
    | _ => cases hterms
  · rw [hm]
    refine (RoundingPolicy.fits_rounder hrounder).trans ?_
    cases config with
    | base _ => cases hterms
    | _ =>
      cases hterms
      rfl

theorem checkable_build (hconfig : config.InRange) (hf : ∀ a ∈ assignments, a.points.IsFinite)
    (hlength : rule.basis.relevant.length ≤ 2 ^ 48)
    (h : build which config assignments = .ok rule) : rule.Checkable := by
  obtain ⟨hbasis, hmeasure⟩ := build_eq_ok h
  refine ⟨sound_build hconfig hf h, RuleBasis.wellLabelled_build hbasis,
    (RuleBasis.length_maxPoints_le hbasis).trans hlength, fun rounder required total hm => ?_⟩
  rcases hmeasure with hm' | ⟨_, _, _, _, -, -, -, hm'⟩ | ⟨_, _, t, -, -, ht, hm'⟩
  · cases hm.symm.trans hm'
  · cases hm.symm.trans hm'
  · cases hm.symm.trans hm'
    exact ht

end Rule

/-- A rule that could be built checks every ordinary list of assessments just if it has no
assignment, or rounds achieved percents to at most 25 decimals and has points that doubles can
hold. -/
theorem Registry.check_returns_iff {registry : Registry} {assignments : List Assignment}
    {document : Value} {config : RuleConfig} {rule : Rule}
    (hparse : registry.parse (.document document) = .ok config)
    (hbuild : (registry.buildConfig assignments config).result = .ok rule)
    (hmeasure : rule.measure ≠ .nothing) (hfinite : ∀ a ∈ assignments, a.points.IsFinite)
    (hlength : rule.basis.relevant.length ≤ 2 ^ 48) (hsettled : rule.TotalSettled) :
    (∀ A, (∀ a ∈ A, rule.Ordinary a) → ∃ r, (rule.check A).result = .ok r) ↔
      rule.basis.relevant = [] ∨ config.Fits ∧ rule.PointsInRange := by
  obtain ⟨which, hrule⟩ := build_of_buildConfig hbuild
  have hcheckable := Rule.checkable_build (RuleConfig.inRange_parse hparse) hfinite hlength hrule
  rw [hcheckable.forall_check_iff hmeasure hsettled, Rule.fits_build hrule hmeasure,
    RuleBasis.maxPoints_eq_nil_iff (Rule.build_eq_ok hrule).1]

/-- With 30 decimals not all participants of the small course have a result. -/
theorem Registry.check_returns_iff_thirty_decimals :
    ∃ config rule, standard.parse (.document (Sample.shareConfig (Sample.rounding "normal" 30))) =
        .ok config ∧
      (standard.buildConfig Sample.assignments config).result = .ok rule ∧
      ¬ ∀ A, (∀ a ∈ A, rule.Ordinary a) → ∃ r, (rule.check A).result = .ok r := by
  have hparse := Sample.parse_shareConfig ⟨.normal, 30⟩
  have hruns : ((standard.buildConfig Sample.assignments
      (.share Sample.header ⟨Sample.fifty, ⟨.normal, 0⟩, Sample.fifty, ⟨.normal, 30⟩⟩)).result
        ).toOption.any (fun rule =>
          decide (rule.basis.relevant.length = 2) && rule.measure.isShare) = true := by
    decide +kernel
  obtain ⟨rule, hrule, hfacts⟩ := exists_of_any hruns
  rw [Bool.and_eq_true, decide_eq_true_eq] at hfacts
  obtain ⟨hlength, hshare⟩ := hfacts
  refine ⟨_, rule, hparse, hrule, fun hreturns => ?_⟩
  have hcondition := (check_returns_iff hparse hrule (Measure.ne_nothing_of_isShare hshare)
    Sample.isFinite_assignments (by omega) (Rule.totalSettled_of_isShare hshare)).mp hreturns
  rcases hcondition with hnil | ⟨hfits, -⟩
  · rw [hnil] at hlength
    cases hlength
  · exact absurd hfits (by decide)

end ExamAdmission
