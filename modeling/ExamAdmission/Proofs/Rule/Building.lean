import ExamAdmission.Policy
import ExamAdmission.Proofs.Config.Ranges
import ExamAdmission.Proofs.Document.Sums
import ExamAdmission.Proofs.Document.Tables
import ExamAdmission.Proofs.Rounding.Order

/-! What a rule that could be built is known to be: every assignment of its type is worth something,
and neither the quota nor the total is negative. -/

namespace ExamAdmission

attribute [local irreducible] rangeEnd Binary64.unit

theorem Value.label_eq_ok {v : Value} {label : Label} :
    v.label = .ok label ↔ label.form = v ∧ v.key? = some label.key := by
  cases h : v.key? with
  | none => simp [Value.label, h]
  | some key =>
    simp only [Value.label, h, Except.ok.injEq, Option.some.injEq]
    constructor
    · rintro rfl
      exact ⟨rfl, rfl⟩
    · rintro ⟨rfl, rfl⟩
      rfl

theorem Value.number?_of_lacksPoints {v : Value} (h : lacksPoints v = .ok false) :
    ∃ a, v.number? = some a ∧ a.le (.int 0) = false := by
  obtain ⟨a, ha, hle⟩ := bind_eq_ok.mp h
  unfold number at ha
  split at ha
  · rename_i hnumber
    cases ha
    exact ⟨_, hnumber, Except.ok.inj hle⟩
  · cases ha

theorem Number.isZero_eq_false_of_le {a : Number} (h : a.le (.int 0) = false) :
    a.isZero = false := by
  rw [Bool.eq_false_iff, Ne, isZero_iff]
  intro hzero
  rw [le, hzero, position?_zero] at h
  simp [Position.leq?, Position.le] at h

/-- Points above zero. -/
def Value.IsWorth (v : Value) : Prop :=
  ∃ a, v.number? = some a ∧ a.IsFinite ∧ .int 0 ≤ a ∧ a.isZero = false

theorem Value.isWorth_of_lacksPoints {v : Value} (hf : v.IsFinite)
    (h : lacksPoints v = .ok false) : v.IsWorth := by
  obtain ⟨a, ha, hle⟩ := number?_of_lacksPoints h
  obtain ⟨_, hb, k, hk⟩ := hf
  cases ha.symm.trans hb
  refine ⟨a, ha, ⟨k, hk⟩, ?_, Number.isZero_eq_false_of_le hle⟩
  rw [Number.le, Number.position?_zero, hk] at hle
  rw [Number.le_iff, Number.position?_zero, hk]
  simp only [Position.leq?, Position.le, decide_eq_false_iff_not, decide_eq_true_eq] at hle ⊢
  omega

theorem Value.IsWorth.lacksPoints {v : Value} (h : v.IsWorth) : lacksPoints v = .ok false := by
  obtain ⟨a, ha, -, hnonneg, hz⟩ := h
  have hle : a.le (.int 0) = false := by
    rw [Number.le, Number.position?_zero]
    rcases Number.pos_cases hnonneg hz with hp | ⟨k, hk, hp⟩
    · simp [hp, Position.leq?, Position.le]
    · simp [hp, Position.leq?, Position.le, hk]
  simp [ExamAdmission.lacksPoints, number, ha, hle, bind, Except.bind, pure, Except.pure]

theorem lacksPoints_of_idsWithoutPoints {assignments : List Assignment}
    (h : idsWithoutPoints assignments = .ok []) :
    ∀ a ∈ assignments, lacksPoints a.points = .ok false := by
  induction assignments with
  | nil => simp
  | cons a rest ih =>
    obtain ⟨lacking, hl, hrest⟩ := bind_eq_ok.mp h
    obtain ⟨others, ho, hids⟩ := bind_eq_ok.mp hrest
    cases lacking with
    | true => cases hids
    | false =>
      cases hids
      exact List.forall_mem_cons.mpr ⟨hl, ih ho⟩

theorem map_key?_of_labels {β : Type} {label : β → Label} {assignments : List Assignment} {bs : List β}
    (h : List.Forall₂ (fun a b => a.id.label = .ok (label b)) assignments bs) :
    assignments.map (fun a => a.id.key?) = bs.map fun b => some (label b).key := by
  rw [← List.forall₂_eq_eq_eq, List.forall₂_map_left_iff, List.forall₂_map_right_iff]
  exact h.imp fun _ _ hb => (Value.label_eq_ok.mp hb).2

theorem Value.isText_iff {v : Value} {s : String} : v.isText s = true ↔ v = .text s := by
  cases v <;> simp [isText]

instance (v : Value) (s : String) : Decidable (v = .text s) :=
  decidable_of_iff (v.isText s = true) Value.isText_iff

/-- The assignments whose type is this text. -/
def assignmentsOfType (type : String) (assignments : List Assignment) : List Assignment :=
  assignments.filter fun a => a.type = .text type

theorem filter_isOfType (type : String) (assignments : List Assignment) :
    assignments.filter (Assignment.isOfType type) = assignmentsOfType type assignments := by
  refine List.filter_congr fun a _ => ?_
  rw [Bool.eq_iff_iff, Assignment.isOfType, Value.isText_iff, decide_eq_true_eq]

theorem mem_assignmentsOfType {type : String} {assignments : List Assignment} {a : Assignment} :
    a ∈ assignmentsOfType type assignments ↔ a ∈ assignments ∧ a.type = .text type := by
  rw [assignmentsOfType, List.mem_filter, decide_eq_true_eq]

namespace RuleBasis

variable {header : RuleHeader} {assignments : List Assignment} {basis : RuleBasis}

theorem build_eq_ok (h : build header assignments = .ok basis) :
    ∃ labels entries,
      assignments.mapM (fun a => a.id.label) = .ok labels ∧
      basis.relevant = assignmentsOfType header.assignmentType assignments ∧
      idsWithoutPoints basis.relevant = .ok [] ∧
      List.Forall₂ (fun a e => a.id.label = .ok e.1 ∧ a.points = e.2) basis.relevant entries ∧
      basis.known = labels.map Label.key ∧ basis.maxPoints = Table.ofList entries ∧
      basis.ruleType = header.ruleType ∧ basis.assignmentType = header.assignmentType := by
  obtain ⟨labels, hlabels, hrest⟩ := bind_eq_ok.mp h
  dsimp only at hrest
  split at hrest
  · cases hrest
  obtain ⟨ids, hids, hentries⟩ := bind_eq_ok.mp hrest
  cases ids with
  | cons id ids => cases hentries
  | nil =>
    obtain ⟨entries, hmap, ⟨⟩⟩ := bind_eq_ok.mp hentries
    refine ⟨labels, entries, hlabels, filter_isOfType _ _, hids, ?_, rfl, rfl, rfl, rfl⟩
    refine (mapM_eq_ok.mp hmap).imp fun a e he => ?_
    obtain ⟨label, hlabel, ⟨⟩⟩ := bind_eq_ok.mp he
    exact ⟨hlabel, rfl⟩

theorem exists_of_mem_maxPoints (h : build header assignments = .ok basis) {v : Value}
    (hv : v ∈ basis.maxPoints.values) :
    ∃ a ∈ assignments, a.points = v ∧ lacksPoints v = .ok false := by
  obtain ⟨labels, entries, -, hrel, hids, hentries, -, hmax, -, -⟩ := build_eq_ok h
  rw [hmax] at hv
  obtain ⟨e, he, rfl⟩ := List.mem_map.mp (Table.mem_values_ofList hv)
  obtain ⟨a, ha, -, hp⟩ := exists_of_forall₂ hentries he
  have hlacks := lacksPoints_of_idsWithoutPoints hids a ha
  rw [hrel] at ha
  exact ⟨a, (mem_assignmentsOfType.mp ha).1, hp, hp ▸ hlacks⟩

theorem isWorth_maxPoints (hf : ∀ a ∈ assignments, a.points.IsFinite)
    (h : build header assignments = .ok basis) : ∀ v ∈ basis.maxPoints.values, v.IsWorth := by
  intro v hv
  obtain ⟨a, ha, rfl, hlacks⟩ := exists_of_mem_maxPoints h hv
  exact Value.isWorth_of_lacksPoints (hf a ha) hlacks

theorem maxPoints_eq_nil_iff (h : build header assignments = .ok basis) :
    basis.maxPoints = [] ↔ basis.relevant = [] := by
  obtain ⟨labels, entries, -, -, -, hentries, -, hmax, -, -⟩ := build_eq_ok h
  rw [hmax]
  generalize basis.relevant = relevant at hentries
  constructor
  · intro hnil
    cases hentries with
    | nil => rfl
    | @cons a e rest others he hrest =>
      have hmem : e.1.key ∈ (Table.ofList (e :: others)).keys :=
        Table.mem_keys_ofList.mpr (by simp)
      rw [hnil] at hmem
      cases hmem
  · intro hnil
    rw [hnil] at hentries
    cases hentries
    rfl

theorem length_maxPoints_le (h : build header assignments = .ok basis) :
    basis.maxPoints.length ≤ basis.relevant.length := by
  obtain ⟨labels, entries, -, -, -, hentries, -, hmax, -, -⟩ := build_eq_ok h
  have hsub := (firstMentions_sublist (entries.map Prod.fst)).length_le
  rw [← Table.labels_ofList, Table.labels, List.length_map, List.length_map] at hsub
  rw [hmax, hentries.length_eq]
  exact hsub

/-- Only an identifier that is repeated takes the place of another. -/
theorem length_maxPoints_eq_iff (h : build header assignments = .ok basis) :
    basis.maxPoints.length = basis.relevant.length ↔
      (basis.relevant.map fun a => a.id.key?).Nodup := by
  obtain ⟨_, entries, -, -, -, hentries, -, hmax, -, -⟩ := build_eq_ok h
  have hkeys : basis.relevant.map (fun a => a.id.key?) = (Table.keys entries).map some := by
    rw [map_key?_of_labels (hentries.imp fun _ _ he => he.1), Table.keys, List.map_map]
    rfl
  rw [hkeys, List.nodup_map_iff (Option.some_injective _), hmax, hentries.length_eq]
  constructor
  · intro hlength
    have hlabels : firstMentions (entries.map Prod.fst) = entries.map Prod.fst := by
      refine (firstMentions_sublist _).eq_of_length ?_
      rw [← Table.labels_ofList, Table.labels, List.length_map, List.length_map, hlength]
    have hnodup := nodup_firstMentions (entries.map Prod.fst)
    rwa [hlabels, List.map_map] at hnodup
  · intro hnodup
    rw [Table.ofList_of_nodup hnodup]

/-- A table of points as a check needs it: its labels are those of their forms, none of them stands
twice, and the course knows them. -/
structure WellLabelled (basis : RuleBasis) : Prop where
  labels : ∀ e ∈ basis.maxPoints, e.1.form.label = .ok e.1
  nodup : basis.maxPoints.keys.Nodup
  known : basis.maxPoints.keys ⊆ basis.known

theorem wellLabelled_build (h : build header assignments = .ok basis) : basis.WellLabelled := by
  obtain ⟨labels, entries, hlabels, hrel, -, hentries, hknown, hmax, -, -⟩ := build_eq_ok h
  refine ⟨fun e he => ?_, hmax ▸ Table.nodup_keys_ofList entries, fun key hkey => ?_⟩
  · have hlabel : e.1 ∈ basis.maxPoints.labels := List.mem_map_of_mem he
    rw [hmax, Table.labels_ofList] at hlabel
    obtain ⟨entry, hentry, hfst⟩ := List.mem_map.mp ((firstMentions_sublist _).subset hlabel)
    obtain ⟨a, -, ha, -⟩ := exists_of_forall₂ hentries hentry
    rw [hfst] at ha
    rwa [(Value.label_eq_ok.mp ha).1]
  · rw [hmax, Table.mem_keys_ofList, List.mem_map] at hkey
    obtain ⟨entry, hentry, rfl⟩ := hkey
    obtain ⟨a, ha, halabel, -⟩ := exists_of_forall₂ hentries hentry
    rw [hrel] at ha
    obtain ⟨label, hmem, hlabel⟩ :=
      exists_of_forall₂ (mapM_eq_ok.mp hlabels).flip (List.mem_of_mem_filter ha)
    cases halabel.symm.trans hlabel
    rw [hknown]
    exact List.mem_map_of_mem hmem

end RuleBasis

/-- What a check compares with is not negative. -/
def Measure.Nonneg : Measure → Prop
  | .nothing => True
  | .share _ _ quota => .zero false ≤ quota
  | .overall _ _ total => .int 0 ≤ total

namespace Rule

/-- A rule that percents can be calculated by. -/
structure Sound (rule : Rule) : Prop where
  isWorth : ∀ v ∈ rule.basis.maxPoints.values, v.IsWorth
  nonneg : rule.measure.Nonneg

theorem quota_nonneg {rounder : Rounder} {count : ℕ} {passedPercent q : Binary64}
    (h : .zero false ≤ passedPercent) (hq : quota rounder count passedPercent = .ok q) :
    .zero false ≤ q := by
  obtain ⟨part, hpart, hrest⟩ := bind_eq_ok.mp hq
  obtain ⟨share, hcount, hround⟩ := bind_eq_ok.mp hrest
  exact Rounder.round_nonneg (shareOfCount_nonneg (fractionOfPercent_nonneg h hpart) hcount) hround

variable {config : RuleConfig} {assignments : List Assignment} {rule : Rule}

theorem isPercent_shareTerms {terms : ShareTerms} (hconfig : config.InRange)
    (h : shareTerms config = .ok terms) :
    terms.passedPercent.IsPercent ∧ terms.requiredPercent.IsPercent := by
  cases config with
  | share header t =>
    cases h
    exact hconfig
  | _ => cases h

theorem isPercent_overallTerms {terms : OverallTerms} (hconfig : config.InRange)
    (h : overallTerms config = .ok terms) : terms.requiredPercent.IsPercent := by
  cases config with
  | base header => cases h
  | share header t =>
    cases h
    exact hconfig.2
  | overall header t =>
    cases h
    exact hconfig

theorem build_share_eq_ok (h : build .share config assignments = .ok rule) :
    ∃ terms passedRounder rounder q, shareTerms config = .ok terms ∧
      terms.passedRounding.rounder = .ok passedRounder ∧
      terms.achievedRounding.rounder = .ok rounder ∧
      RuleBasis.build config.header assignments = .ok rule.basis ∧
      quota passedRounder rule.basis.relevant.length terms.passedPercent = .ok q ∧
      rule.measure = .share rounder terms.requiredPercent q := by
  obtain ⟨terms, hterms, h⟩ := bind_eq_ok.mp h
  obtain ⟨passedRounder, hpassed, h⟩ := bind_eq_ok.mp h
  obtain ⟨rounder, hrounder, h⟩ := bind_eq_ok.mp h
  obtain ⟨basis, hbasis, h⟩ := bind_eq_ok.mp h
  obtain ⟨q, hq, ⟨⟩⟩ := bind_eq_ok.mp h
  exact ⟨terms, passedRounder, rounder, q, hterms, hpassed, hrounder, hbasis, hq, rfl⟩

theorem build_overall_eq_ok (h : build .overall config assignments = .ok rule) :
    ∃ terms rounder total, overallTerms config = .ok terms ∧
      terms.achievedRounding.rounder = .ok rounder ∧
      RuleBasis.build config.header assignments = .ok rule.basis ∧
      Value.sum rule.basis.maxPoints.values = .ok total ∧
      rule.measure = .overall rounder terms.requiredPercent total := by
  obtain ⟨terms, hterms, h⟩ := bind_eq_ok.mp h
  obtain ⟨rounder, hrounder, h⟩ := bind_eq_ok.mp h
  obtain ⟨basis, hbasis, h⟩ := bind_eq_ok.mp h
  obtain ⟨total, htotal, ⟨⟩⟩ := bind_eq_ok.mp h
  exact ⟨terms, rounder, total, hterms, hrounder, hbasis, htotal, rfl⟩

theorem build_eq_ok {which : RuleClass} (h : build which config assignments = .ok rule) :
    RuleBasis.build config.header assignments = .ok rule.basis ∧
      (rule.measure = .nothing ∨
        (∃ terms passedRounder rounder q, shareTerms config = .ok terms ∧
          terms.achievedRounding.rounder = .ok rounder ∧
          quota passedRounder rule.basis.relevant.length terms.passedPercent = .ok q ∧
          rule.measure = .share rounder terms.requiredPercent q) ∨
        ∃ terms rounder total, overallTerms config = .ok terms ∧
          terms.achievedRounding.rounder = .ok rounder ∧
          Value.sum rule.basis.maxPoints.values = .ok total ∧
          rule.measure = .overall rounder terms.requiredPercent total) := by
  cases which with
  | base =>
    obtain ⟨basis, hbasis, ⟨⟩⟩ := bind_eq_ok.mp h
    exact ⟨hbasis, .inl rfl⟩
  | share =>
    obtain ⟨terms, passedRounder, rounder, q, hterms, -, hrounder, hbasis, hq, hm⟩ :=
      build_share_eq_ok h
    exact ⟨hbasis, .inr (.inl ⟨terms, passedRounder, rounder, q, hterms, hrounder, hq, hm⟩)⟩
  | overall =>
    obtain ⟨terms, rounder, total, hterms, hrounder, hbasis, htotal, hm⟩ := build_overall_eq_ok h
    exact ⟨hbasis, .inr (.inr ⟨terms, rounder, total, hterms, hrounder, htotal, hm⟩)⟩

theorem sound_build {which : RuleClass} (hconfig : config.InRange)
    (hf : ∀ a ∈ assignments, a.points.IsFinite) (h : build which config assignments = .ok rule) :
    rule.Sound := by
  obtain ⟨hbasis, hmeasure⟩ := build_eq_ok h
  have hworth := RuleBasis.isWorth_maxPoints hf hbasis
  refine ⟨hworth, ?_⟩
  rcases hmeasure with hm | ⟨terms, _, _, q, hterms, -, hq, hm⟩ | ⟨_, _, total, -, -, htotal, hm⟩
  · rw [hm]
    trivial
  · rw [hm]
    exact quota_nonneg (Number.zero_le_float.mp (isPercent_shareTerms hconfig hterms).1.1) hq
  · rw [hm]
    refine Value.sum_nonneg (fun v hv => ?_) htotal
    obtain ⟨a, ha, hfinite, hle, -⟩ := hworth v hv
    exact ⟨⟨a, ha, hfinite⟩, ⟨_, a, rfl, ha, hle⟩⟩

end Rule

namespace Registry

variable {registry : Registry} {assignments : List Assignment} {config : RuleConfig} {rule : Rule}

theorem buildConfig_eq_ok : (registry.buildConfig assignments config).result = .ok rule ↔
    ∃ which, registry.rules.find? (.text config.header.ruleType) = some which ∧
      Rule.build which config assignments = .ok rule := by
  unfold buildConfig
  cases registry.rules.find? (.text config.header.ruleType) with
  | none => simp [Run.fail]
  | some which =>
    simp only [Option.some.injEq, exists_eq_left', Rule.make]
    cases Rule.build which config assignments <;> simp [Run.fail]

theorem build_of_buildConfig (h : (registry.buildConfig assignments config).result = .ok rule) :
    ∃ which, Rule.build which config assignments = .ok rule := by
  obtain ⟨which, -, hbuild⟩ := buildConfig_eq_ok.mp h
  exact ⟨which, hbuild⟩

/-- Where a rule comes from: a configuration that was accepted, and the class of its type. -/
theorem exists_of_build {document : Value}
    (h : (registry.build assignments document).result = .ok rule) :
    ∃ which config, registry.parse (.document document) = .ok config ∧
      registry.rules.find? (.text config.header.ruleType) = some which ∧
      Rule.build which config assignments = .ok rule := by
  obtain ⟨config, hparse, hmake⟩ := Run.bind_result_eq_ok.mp h
  obtain ⟨which, hwhich, hbuild⟩ := buildConfig_eq_ok.mp hmake
  exact ⟨which, config, hparse, hwhich, hbuild⟩

end Registry

end ExamAdmission
