import ExamAdmission.Proofs.Config.Places
import ExamAdmission.Proofs.Rule.Building
import ExamAdmission.Proofs.Rule.Quota

/-! Why a rule of a course cannot be built. In assignments that were read there is nothing to fail
at, so that a configuration error is left, or more decimals than decimal arithmetic takes. -/

namespace ExamAdmission

attribute [local irreducible] rangeEnd Binary64.unit

/-- An assignment that was read from a document: its identifier is a text, its points a double. -/
structure Assignment.Plain (a : Assignment) : Prop where
  id : ∃ s, a.id = .text s
  points : ∃ x, a.points = .float x

theorem Assignment.plain_of_read {data : Value} {a : Assignment} (h : read data = .ok a) :
    a.Plain := by
  obtain ⟨_, -, h⟩ := bind_eq_ok.mp h
  obtain ⟨_, -, h⟩ := bind_eq_ok.mp h
  obtain ⟨_, -, h⟩ := bind_eq_ok.mp h
  obtain ⟨_, -, h⟩ := bind_eq_ok.mp h
  obtain ⟨_, -, ⟨⟩⟩ := bind_eq_ok.mp h
  exact ⟨⟨_, rfl⟩, ⟨_, rfl⟩⟩

theorem Assignment.plain_of_mapM {course : List Value} {assignments : List Assignment}
    (h : course.mapM read = .ok assignments) : ∀ a ∈ assignments, a.Plain := by
  intro a ha
  obtain ⟨data, -, hread⟩ := exists_of_forall₂ (mapM_eq_ok.mp h) ha
  exact plain_of_read hread

def Fault.IsConfig (e : Fault) : Prop := ∃ cause, e = .config cause

theorem exists_idsWithoutPoints {assignments : List Assignment}
    (h : ∀ a ∈ assignments, a.Plain) : ∃ ids, idsWithoutPoints assignments = .ok ids := by
  induction assignments with
  | nil => exact ⟨[], rfl⟩
  | cons a rest ih =>
    obtain ⟨⟨-, x, hx⟩, hrest⟩ := List.forall_mem_cons.mp h
    obtain ⟨ids, hids⟩ := ih hrest
    have hlacks : lacksPoints a.points = .ok ((Number.float x).le (.int 0)) := by
      rw [hx]
      rfl
    exact ⟨_, bind_eq_ok.mpr ⟨_, hlacks, bind_eq_ok.mpr ⟨ids, hids, rfl⟩⟩⟩

theorem Value.exists_sum {vs : List Value} (h : ∀ v ∈ vs, ∃ x, v = .float x) :
    ∃ s, sum vs = .ok s := by
  -- the running total is zero or a double, so that it always has a double
  have hfold : ∀ total : Number, (∃ y, total.toBinary64 = .ok y) →
      ∃ s, vs.foldlM (fun total v => do total.add (← v.number)) total = .ok s := by
    induction vs with
    | nil => exact fun total _ => ⟨total, rfl⟩
    | cons v rest ih =>
      obtain ⟨⟨x, rfl⟩, hrest⟩ := List.forall_mem_cons.mp h
      rintro total ⟨y, hy⟩
      have hadd : total.add (.float x) = .ok (.float (y.add x)) := by
        cases total <;> exact bind_eq_ok.mpr ⟨y, hy, rfl⟩
      obtain ⟨s, hs⟩ := ih hrest (.float (y.add x)) ⟨_, rfl⟩
      exact ⟨s, bind_eq_ok.mpr ⟨_, hadd, hs⟩⟩
  exact hfold (.int 0) ⟨_, Number.toBinary64_zero⟩

namespace RuleBasis

variable {header : RuleHeader} {assignments : List Assignment} {basis : RuleBasis} {e : Fault}

theorem isConfig_of_build (hplain : ∀ a ∈ assignments, a.Plain)
    (h : build header assignments = .error e) : e.IsConfig := by
  have hlabel : ∀ a ∈ assignments, ∃ label, a.id.label = .ok label := by
    intro a ha
    obtain ⟨s, hs⟩ := (hplain a ha).id
    exact ⟨.ofText s, by rw [hs]; rfl⟩
  have hrelevant : ∀ a ∈ assignments.filter (Assignment.isOfType header.assignmentType),
      a ∈ assignments := fun a ha => List.mem_of_mem_filter ha
  rcases bind_eq_error.mp h with hlabels | ⟨labels, -, h⟩
  · obtain ⟨labels, hok⟩ := exists_mapM hlabel
    cases hok.symm.trans hlabels
  dsimp only at h
  split at h
  · exact ⟨_, (Except.error.inj h).symm⟩
  rcases bind_eq_error.mp h with hids | ⟨ids, -, h⟩
  · obtain ⟨ids, hok⟩ := exists_idsWithoutPoints fun a ha => hplain a (hrelevant a ha)
    cases hok.symm.trans hids
  cases ids with
  | cons id ids => exact ⟨_, (Except.error.inj h).symm⟩
  | nil =>
    rcases bind_eq_error.mp h with hentries | ⟨_, -, ⟨⟩⟩
    obtain ⟨entries, hok⟩ := exists_mapM fun a ha => by
      obtain ⟨label, hl⟩ := hlabel a (hrelevant a ha)
      exact ⟨(label, a.points), bind_eq_ok.mpr ⟨label, hl, rfl⟩⟩
    cases hok.symm.trans hentries

theorem exists_total (hplain : ∀ a ∈ assignments, a.Plain)
    (h : build header assignments = .ok basis) :
    ∃ total, Value.sum basis.maxPoints.values = .ok total := by
  refine Value.exists_sum fun v hv => ?_
  obtain ⟨a, ha, rfl, -⟩ := exists_of_mem_maxPoints h hv
  exact (hplain a ha).points

end RuleBasis

/-- More decimals than decimal arithmetic takes: there is no last place for them, or the quota of a
share rule would have more than 28 digits. -/
def RuleConfig.Overprecise (assignments : List Assignment) : RuleConfig → Prop
  | .base _ => False
  | .share header terms => ¬ terms.passedRounding.UpTo mostDecimals ∨
      ¬ terms.achievedRounding.UpTo mostDecimals ∨
      ∃ rounder basis x, terms.passedRounding.rounder = .ok rounder ∧
        RuleBasis.build header assignments = .ok basis ∧
        Rule.quota .unchanged basis.relevant.length terms.passedPercent = .ok x ∧
        rounder.Exceeds x
  | .overall _ terms => ¬ terms.achievedRounding.UpTo mostDecimals

theorem RuleConfig.not_overprecise {config : RuleConfig} {assignments : List Assignment}
    (hrange : config.InRange) (hup : config.UpTo 12) (hcount : assignments.length ≤ 10 ^ 15) :
    ¬ config.Overprecise assignments := by
  have hplaces : ∀ policy : RoundingPolicy, policy.UpTo 12 → policy.UpTo mostDecimals :=
    fun policy h => h.mono (by decide)
  cases config with
  | base header => exact id
  | overall header terms => exact not_not.mpr (hplaces _ hup)
  | share header terms =>
    rintro (hpassed | hachieved | ⟨rounder, basis, x, hrounder, hbasis, hx, hexceeds⟩)
    · exact hpassed (hplaces _ hup.1)
    · exact hachieved (hplaces _ hup.2)
    · obtain ⟨x, hx', h0, hle⟩ := hrange.1.exists_quota basis.relevant.length
      cases hx.symm.trans hx'
      obtain ⟨_, _, -, hrel, -⟩ := RuleBasis.build_eq_ok hbasis
      have hlength : basis.relevant.length ≤ 10 ^ 15 := by
        rw [hrel]
        exact List.length_filter_le .. |>.trans hcount
      rcases RoundingPolicy.rounder_eq_ok hrounder with ⟨-, rfl⟩ | ⟨htype, bearing, rfl⟩
      · exact hexceeds
      · have hdecimals : 10 ^ 15 * 10 ^ terms.passedRounding.decimals < 10 ^ 28 :=
          Nat.lt_of_le_of_lt (Nat.mul_le_mul_left _
            (Nat.pow_le_pow_right (by decide) (hup.1.resolve_left htype))) (by norm_num)
        exact Rounder.not_exceeds_of_le h0 (hle hlength) hdecimals hexceeds

namespace Rule

variable {header : RuleHeader} {assignments : List Assignment} {e : Fault}

section Share

variable {terms : ShareTerms} {passed achieved : Rounder}

theorem overprecise_share_iff (hpassed : terms.passedRounding.rounder = .ok passed)
    (hachieved : terms.achievedRounding.rounder = .ok achieved) :
    (RuleConfig.share header terms).Overprecise assignments ↔
      ∃ basis x, RuleBasis.build header assignments = .ok basis ∧
        quota .unchanged basis.relevant.length terms.passedPercent = .ok x ∧ passed.Exceeds x := by
  constructor
  · rintro (hplaces | hplaces | ⟨_, basis, x, hr, hfacts⟩)
    · exact absurd (RoundingPolicy.exists_rounder_iff.mp ⟨_, hpassed⟩) hplaces
    · exact absurd (RoundingPolicy.exists_rounder_iff.mp ⟨_, hachieved⟩) hplaces
    · cases hpassed.symm.trans hr
      exact ⟨basis, x, hfacts⟩
  · rintro ⟨basis, x, hfacts⟩
    exact .inr (.inr ⟨passed, basis, x, hpassed, hfacts⟩)

theorem build_share_of_rounders (hp : terms.passedPercent.IsPercent)
    (hpassed : terms.passedRounding.rounder = .ok passed)
    (hachieved : terms.achievedRounding.rounder = .ok achieved) :
    build .share (.share header terms) assignments = .error e ↔
      RuleBasis.build header assignments = .error e ∨
        (∃ basis x, RuleBasis.build header assignments = .ok basis ∧
          quota .unchanged basis.relevant.length terms.passedPercent = .ok x ∧
          passed.Exceeds x) ∧ e = .arithmetic .invalidOperation := by
  have hbuild : build .share (.share header terms) assignments = (do
      let basis ← RuleBasis.build header assignments
      let required ← quota passed basis.relevant.length terms.passedPercent
      return ⟨basis, .share achieved terms.requiredPercent required⟩) := by
    simp only [build, shareTerms, hpassed, hachieved, bind, Except.bind]
    rfl
  rw [hbuild, bind_eq_error]
  refine or_congr_right ?_
  constructor
  · rintro ⟨basis, hbasis, h⟩
    rcases bind_eq_error.mp h with hquota | ⟨_, -, ⟨⟩⟩
    obtain ⟨⟨x, hx, hexceeds⟩, rfl⟩ := (quota_eq_error hp).mp hquota
    exact ⟨⟨basis, x, hbasis, hx, hexceeds⟩, rfl⟩
  · rintro ⟨⟨basis, x, hbasis, hx, hexceeds⟩, rfl⟩
    exact ⟨basis, hbasis,
      bind_eq_error.mpr (.inl ((quota_eq_error hp).mpr ⟨⟨x, hx, hexceeds⟩, rfl⟩))⟩

theorem build_share_eq_error (hp : terms.passedPercent.IsPercent) :
    build .share (.share header terms) assignments = .error e ↔
      (RuleConfig.share header terms).Overprecise assignments ∧
          e = .arithmetic .invalidOperation ∨
        ¬ (RuleConfig.share header terms).Overprecise assignments ∧
          RuleBasis.build header assignments = .error e := by
  cases hpassed : terms.passedRounding.rounder with
  | error fault =>
    obtain ⟨hplaces, rfl⟩ := RoundingPolicy.rounder_eq_error.mp hpassed
    have hover : (RuleConfig.share header terms).Overprecise assignments := .inl hplaces
    simp [build, shareTerms, hpassed, bind, Except.bind, hover, eq_comm]
  | ok passed =>
    cases hachieved : terms.achievedRounding.rounder with
    | error fault =>
      obtain ⟨hplaces, rfl⟩ := RoundingPolicy.rounder_eq_error.mp hachieved
      have hover : (RuleConfig.share header terms).Overprecise assignments := .inr (.inl hplaces)
      simp [build, shareTerms, hpassed, hachieved, bind, Except.bind, hover, eq_comm]
    | ok achieved =>
      have hover := @overprecise_share_iff header assignments terms _ _ hpassed hachieved
      rw [build_share_of_rounders hp hpassed hachieved, hover, or_comm]
      refine or_congr_right (iff_and_self.mpr ?_)
      rintro hbasis ⟨_, _, hok, -⟩
      cases hok.symm.trans hbasis

end Share

theorem build_overall_eq_error {terms : OverallTerms} (hplain : ∀ a ∈ assignments, a.Plain) :
    build .overall (.overall header terms) assignments = .error e ↔
      (RuleConfig.overall header terms).Overprecise assignments ∧
          e = .arithmetic .invalidOperation ∨
        ¬ (RuleConfig.overall header terms).Overprecise assignments ∧
          RuleBasis.build header assignments = .error e := by
  constructor
  · intro h
    rcases bind_eq_error.mp h with ⟨⟨⟩⟩ | ⟨_, ⟨⟩, h⟩
    rcases bind_eq_error.mp h with hachieved | ⟨achieved, hachieved, h⟩
    · exact .inl (RoundingPolicy.rounder_eq_error.mp hachieved)
    rcases bind_eq_error.mp h with hbasis | ⟨basis, hbasis, h⟩
    · exact .inr ⟨not_not.mpr (RoundingPolicy.exists_rounder_iff.mp ⟨_, hachieved⟩), hbasis⟩
    rcases bind_eq_error.mp h with htotal | ⟨_, -, ⟨⟩⟩
    obtain ⟨total, hok⟩ := RuleBasis.exists_total hplain hbasis
    cases hok.symm.trans htotal
  · rintro (⟨hplaces, rfl⟩ | ⟨hnot, hbasis⟩)
    · have hachieved := RoundingPolicy.rounder_eq_error.mpr ⟨hplaces, rfl⟩
      simp only [build, overallTerms, hachieved, bind, Except.bind]
    · obtain ⟨achieved, hachieved⟩ := RoundingPolicy.exists_rounder_iff.mpr (not_not.mp hnot)
      simp only [build, overallTerms, RuleConfig.header, hachieved, hbasis, bind, Except.bind]

theorem make_result (which : RuleClass) (config : RuleConfig) :
    (make which config assignments).result = build which config assignments := by
  unfold make
  cases build which config assignments <;> rfl

end Rule

namespace RuleConfig

variable {fields : List (String × Value)} {config : RuleConfig}

/-- A configuration of one of the two kinds of rule, under its name. -/
def IsStandard : RuleConfig → Prop
  | .base _ => False
  | .share header _ => header.ruleType = shareType
  | .overall header _ => header.ruleType = overallType

theorem isStandard_ofFields {which : ConfigClass} (hwhich : which ≠ .base)
    (h : ofFields fields which = .ok config) : config.IsStandard := by
  cases which with
  | base => exact absurd rfl hwhich
  | share =>
    obtain ⟨⟨header, terms, _⟩, hparts, rfl⟩ := Checked.map_eq_ok.mp h
    exact (headerOf_eq_ok.mp (Checked.and_eq_ok.mp hparts).1).2.1 _ rfl
  | overall =>
    obtain ⟨⟨header, terms, _⟩, hparts, rfl⟩ := Checked.map_eq_ok.mp h
    exact (headerOf_eq_ok.mp (Checked.and_eq_ok.mp hparts).1).2.1 _ rfl

end RuleConfig

namespace Registry

variable {assignments : List Assignment} {document : Value} {config : RuleConfig} {e : Fault}

theorem ne_base_of_find? {key : Key} {which : ConfigClass}
    (h : standard.configs.find? key = some which) : which ≠ .base := by
  rintro rfl
  have hmem := Table.mem_values_of_find? h
  simp [standard, Table.values] at hmem

theorem exists_sortedNames : ∃ names, sortedNames standard.configs = .ok names := ⟨_, rfl⟩

theorem isStandard_parse (h : standard.parse (.document document) = .ok config) :
    config.IsStandard := by
  obtain ⟨_, _, _, -, -, hwhich, hread⟩ := RuleConfig.parse_eq_ok.mp h
  exact RuleConfig.isStandard_ofFields (ne_base_of_find? hwhich) hread

theorem isConfig_of_parse (h : standard.parse (.document document) = .error e) : e.IsConfig := by
  obtain ⟨names, hnames⟩ := exists_sortedNames
  cases document with
  | object fields =>
    simp only [parse, RuleConfig.parse, hnames] at h
    split at h
    · split at h
      · exact ⟨_, (Except.error.inj h).symm⟩
      · split at h
        · cases h
        · exact ⟨_, (Except.error.inj h).symm⟩
    · exact ⟨_, (Except.error.inj h).symm⟩
  | _ => exact ⟨_, (Except.error.inj h).symm⟩

theorem buildConfig_eq_error (hplain : ∀ a ∈ assignments, a.Plain)
    (hparse : standard.parse (.document document) = .ok config) :
    (standard.buildConfig assignments config).result = .error e ↔
      config.Overprecise assignments ∧ e = .arithmetic .invalidOperation ∨
        ¬ config.Overprecise assignments ∧
          RuleBasis.build config.header assignments = .error e := by
  have hstandard := isStandard_parse hparse
  have hrange := RuleConfig.inRange_parse hparse
  cases config with
  | base header => cases hstandard
  | share header terms =>
    have hfind : standard.rules.find? (.text header.ruleType) = some .share := by
      rw [hstandard]
      rfl
    simp only [buildConfig, RuleConfig.header, hfind, Rule.make_result]
    exact Rule.build_share_eq_error hrange.1
  | overall header terms =>
    have hfind : standard.rules.find? (.text header.ruleType) = some .overall := by
      rw [hstandard]
      decide
    simp only [buildConfig, RuleConfig.header, hfind, Rule.make_result]
    exact Rule.build_overall_eq_error hplain

theorem build_eq_error (hplain : ∀ a ∈ assignments, a.Plain)
    (h : (standard.build assignments document).result = .error e) :
    e.IsConfig ∨ e = .arithmetic .invalidOperation ∧
      ∃ config, standard.parse (.document document) = .ok config ∧
        config.Overprecise assignments := by
  rcases Run.bind_result_eq_error.mp h with hparse | ⟨config, hparse, hbuild⟩
  · exact .inl (isConfig_of_parse hparse)
  · rcases (buildConfig_eq_error hplain hparse).mp hbuild with ⟨hover, rfl⟩ | ⟨-, hbasis⟩
    · exact .inr ⟨rfl, config, hparse, hover⟩
    · exact .inl (RuleBasis.isConfig_of_build hplain hbasis)

theorem build_eq_invalidOperation_iff (hplain : ∀ a ∈ assignments, a.Plain) :
    (standard.build assignments document).result = .error (.arithmetic .invalidOperation) ↔
      ∃ config, standard.parse (.document document) = .ok config ∧
        config.Overprecise assignments := by
  constructor
  · intro h
    rcases build_eq_error hplain h with ⟨_, ⟨⟩⟩ | ⟨-, hconfig⟩
    exact hconfig
  · rintro ⟨config, hparse, hover⟩
    exact Run.bind_result_eq_error.mpr
      (.inr ⟨config, hparse, (buildConfig_eq_error hplain hparse).mpr (.inl ⟨hover, rfl⟩)⟩)

end Registry

end ExamAdmission
