import ExamAdmission.Proofs.Rounding.Types
import ExamAdmission.Proofs.Rule.Counting
import ExamAdmission.Proofs.Rule.Monotone

/-! Stricter configurations. Higher percents, achieved percents that are rounded lower and a quota
that is rounded higher never let anybody pass who did not before. -/

namespace ExamAdmission

attribute [local irreducible] rangeEnd Binary64.unit

/-- The second configuration asks for no less than the first. -/
inductive RuleConfig.Tightens : RuleConfig → RuleConfig → Prop
  | share (header : RuleHeader) (terms terms' : ShareTerms)
      (passedPercent : terms.passedPercent ≤ terms'.passedPercent)
      (passedRounding : terms.passedRounding.AtMost terms'.passedRounding)
      (requiredPercent : terms.requiredPercent ≤ terms'.requiredPercent)
      (achievedRounding : terms'.achievedRounding.AtMost terms.achievedRounding) :
      Tightens (.share header terms) (.share header terms')
  | overall (header : RuleHeader) (terms terms' : OverallTerms)
      (requiredPercent : terms.requiredPercent ≤ terms'.requiredPercent)
      (achievedRounding : terms'.achievedRounding.AtMost terms.achievedRounding) :
      Tightens (.overall header terms) (.overall header terms')

theorem RuleConfig.Tightens.header {config config' : RuleConfig} (h : config.Tightens config') :
    config.header = config'.header := by
  cases h <;> rfl

/-- The second measure compares with no less, and with percents that are rounded no higher. -/
inductive Measure.Tightens : Measure → Measure → Prop
  | nothing : Tightens .nothing .nothing
  | share {rounder rounder' : Rounder} {required required' quota quota' : Binary64}
      (hr : rounder'.AtMost rounder) (hreq : required ≤ required') (hq : quota ≤ quota') :
      Tightens (.share rounder required quota) (.share rounder' required' quota')
  | overall {rounder rounder' : Rounder} {required required' : Binary64} (total : Number)
      (hr : rounder'.AtMost rounder) (hreq : required ≤ required') :
      Tightens (.overall rounder required total) (.overall rounder' required' total)

theorem passes_of_tightens {rounder rounder' : Rounder} {required required' p x x' : Binary64}
    (hr : rounder'.AtMost rounder) (hreq : required ≤ required') (hx : rounder.round p = .ok x)
    (hx' : rounder'.round p = .ok x') (hle : required' ≤ x') : required ≤ x := by
  have hn' : x' ≠ .nan := by
    rintro rfl
    exact Binary64.not_le_nan hle
  have hp : p ≤ p := Binary64.le_refl (Rounder.ne_nan_of_round hx' hn')
  exact Binary64.le_trans hreq (Binary64.le_trans hle (hr.round_le hp hx' hx))

theorem passesAssignment_of_tightens {rounder rounder' : Rounder} {required required' : Binary64}
    {table : Table Value} {key : Key} {points : Value} {b : Bool} (hr : rounder'.AtMost rounder)
    (hreq : required ≤ required')
    (hpass : passesAssignment rounder' required' table key points = .ok true)
    (hb : passesAssignment rounder required table key points = .ok b) : b = true := by
  obtain ⟨p, x', hp, hx', hle⟩ := passesAssignment_eq_ok.mp hpass
  obtain ⟨p', x, hp', hx, rfl⟩ := passesAssignment_eq_ok.mp hb
  cases hp.symm.trans hp'
  exact passes_of_tightens hr hreq hx hx' hle

theorem percentOfTotal_of_tightens {rounder rounder' : Rounder} {required required' : Binary64}
    {sum total : Number} {x x' : Binary64} (hr : rounder'.AtMost rounder)
    (hreq : required ≤ required') (hx : percentOfTotal rounder sum total = .ok x)
    (hx' : percentOfTotal rounder' sum total = .ok x') (hle : required' ≤ x') : required ≤ x := by
  unfold percentOfTotal at hx hx'
  split at hx
  · rename_i hz
    rw [if_pos hz] at hx'
    cases hx
    cases hx'
    exact Binary64.le_trans hreq hle
  · rename_i hz
    rw [if_neg hz] at hx'
    obtain ⟨p, hp, hround⟩ := bind_eq_ok.mp hx
    obtain ⟨p', hp', hround'⟩ := bind_eq_ok.mp hx'
    cases hp.symm.trans hp'
    exact passes_of_tightens hr hreq hround hround' hle

namespace Rule

variable {rule rule' : Rule}

theorem quota_mono {rounder rounder' : Rounder} {count : ℕ} {p p' q q' : Binary64}
    (hr : rounder.AtMost rounder') (hp : p ≤ p') (hq : quota rounder count p = .ok q)
    (hq' : quota rounder' count p' = .ok q') : q ≤ q' := by
  obtain ⟨part, hpart, hrest⟩ := bind_eq_ok.mp hq
  obtain ⟨share, hshare, hround⟩ := bind_eq_ok.mp hrest
  obtain ⟨part', hpart', hrest'⟩ := bind_eq_ok.mp hq'
  obtain ⟨share', hshare', hround'⟩ := bind_eq_ok.mp hrest'
  have hparts := fractionOfPercent_mono hp hpart hpart'
  exact hr.round_le (shareOfCount_mono hparts hshare hshare') hround hround'

theorem overallTerms_of_tightens {config config' : RuleConfig} {terms terms' : OverallTerms}
    (h : config.Tightens config') (hterms : overallTerms config = .ok terms)
    (hterms' : overallTerms config' = .ok terms') :
    terms.requiredPercent ≤ terms'.requiredPercent ∧
      terms'.achievedRounding.AtMost terms.achievedRounding := by
  cases h with
  | share header _ _ _ _ hrequired hachieved =>
    cases hterms
    cases hterms'
    exact ⟨hrequired, hachieved⟩
  | overall header _ _ hrequired hachieved =>
    cases hterms
    cases hterms'
    exact ⟨hrequired, hachieved⟩

theorem tightens_build {which : RuleClass} {config config' : RuleConfig}
    {assignments : List Assignment} (h : config.Tightens config')
    (hbuild : build which config assignments = .ok rule)
    (hbuild' : build which config' assignments = .ok rule') :
    rule.basis = rule'.basis ∧ rule.measure.Tightens rule'.measure := by
  have hbasis : rule.basis = rule'.basis := by
    have hrule := (build_eq_ok hbuild).1
    rw [h.header, (build_eq_ok hbuild').1] at hrule
    exact (Except.ok.inj hrule).symm
  refine ⟨hbasis, ?_⟩
  cases which with
  | base =>
    obtain ⟨_, _, ⟨⟩⟩ := bind_eq_ok.mp hbuild
    obtain ⟨_, _, ⟨⟩⟩ := bind_eq_ok.mp hbuild'
    exact .nothing
  | share =>
    obtain ⟨_, _, _, _, hterms, hpassed, hrounder, -, hq, hm⟩ := build_share_eq_ok hbuild
    obtain ⟨_, _, _, _, hterms', hpassed', hrounder', -, hq', hm'⟩ := build_share_eq_ok hbuild'
    rw [hbasis] at hq
    rw [hm, hm']
    cases h with
    | overall => cases hterms
    | share header terms terms' hpercent hround hrequired hachieved =>
      cases hterms
      cases hterms'
      have hquota := quota_mono (hround.rounder hpassed hpassed') hpercent hq hq'
      exact .share (hachieved.rounder hrounder' hrounder) hrequired hquota
  | overall =>
    obtain ⟨_, _, total, hterms, hrounder, -, htotal, hm⟩ := build_overall_eq_ok hbuild
    obtain ⟨_, _, total', hterms', hrounder', -, htotal', hm'⟩ := build_overall_eq_ok hbuild'
    rw [hbasis] at htotal
    cases htotal.symm.trans htotal'
    rw [hm, hm']
    obtain ⟨hrequired, hachieved⟩ := overallTerms_of_tightens h hterms hterms'
    exact .overall total (hachieved.rounder hrounder' hrounder) hrequired

theorem passed_of_tightens {table : Table Value} {r r' : CheckResult}
    (hbasis : rule.basis = rule'.basis) (h : rule.measure.Tightens rule'.measure)
    (hr : rule.verdict table = .ok r) (hr' : rule'.verdict table = .ok r')
    (hpassed : r'.passed = true) : r.passed = true := by
  generalize hm : rule.measure = measure at h
  generalize hm' : rule'.measure = measure' at h
  cases h with
  | nothing =>
    rw [verdict_nothing hm] at hr
    cases hr
  | share hrounder hrequired hquota =>
    obtain ⟨forms, _, hforms, -, rfl⟩ := (verdict_share_eq_ok hm).mp hr
    obtain ⟨forms', _, hforms', -, rfl⟩ := (verdict_share_eq_ok hm').mp hr'
    rw [← hbasis] at hforms'
    have hcount := (passedAssignments_sublist (fun e _ b hpass hb =>
      passesAssignment_of_tightens hrounder hrequired hpass hb) hforms' hforms).length_le
    have hint : Number.int forms'.length ≤ .int forms.length :=
      Number.int_le_int.mpr (Int.ofNat_le.mpr hcount)
    exact Number.le_trans (Number.float_le_float.mpr hquota) (Number.le_trans hpassed hint)
  | overall total hrounder hrequired =>
    obtain ⟨s, x, hs, hx, rfl⟩ := (verdict_overall_eq_ok hm).mp hr
    obtain ⟨s', x', hs', hx', rfl⟩ := (verdict_overall_eq_ok hm').mp hr'
    cases hs.symm.trans hs'
    exact percentOfTotal_of_tightens hrounder hrequired hx hx' hpassed

theorem contribution?_congr (h : rule.basis = rule'.basis) :
    rule.contribution? = rule'.contribution? := by
  funext a
  simp only [contribution?, label?, h]

end Rule

def Sample.sixtyPercent : List Assessment :=
  [assessment "u" "a1" (.int 6), assessment "u" "a2" (.int 12)]

/-- A stricter rule never admits more: what passes it passes the other rule too, whose quota is not
above its own. -/
theorem Registry.check_of_tightens {registry : Registry} {assignments : List Assignment}
    {config config' : RuleConfig} {rule rule' : Rule} (h : config.Tightens config')
    (hbuild : (registry.buildConfig assignments config).result = .ok rule)
    (hbuild' : (registry.buildConfig assignments config').result = .ok rule') :
    (∀ rounder rounder' required required' quota quota',
      rule.measure = .share rounder required quota →
      rule'.measure = .share rounder' required' quota' → quota ≤ quota') ∧
    ∀ A r r', (rule.check A).result = .ok r → (rule'.check A).result = .ok r' →
      r'.passed = true → r.passed = true := by
  obtain ⟨which, hwhich, hrule⟩ := buildConfig_eq_ok.mp hbuild
  obtain ⟨which', hwhich', hrule'⟩ := buildConfig_eq_ok.mp hbuild'
  rw [h.header, hwhich'] at hwhich
  cases hwhich
  obtain ⟨hbasis, hmeasure⟩ := Rule.tightens_build h hrule hrule'
  refine ⟨fun rounder rounder' required required' quota quota' hm hm' => ?_,
    fun A r r' hr hr' hpassed => ?_⟩
  · rw [hm, hm'] at hmeasure
    cases hmeasure with
    | share _ _ hquota => exact hquota
  · have hverdict := (Rule.check_eq_ok.mp hr).2
    have hverdict' := (Rule.check_eq_ok.mp hr').2
    rw [Rule.contribution?_congr hbasis] at hverdict
    exact Rule.passed_of_tightens hbasis hmeasure hverdict hverdict' hpassed

/-- Who passes two homeworks with 60 percent each passes them with 50. -/
theorem Registry.check_of_tightens_sixty_percent :
    ∃ rule rule' r r',
      (standard.buildConfig Sample.assignments
        (.share Sample.header (Sample.terms 50 .normal .up))).result = .ok rule ∧
      (standard.buildConfig Sample.assignments
        (.share Sample.header (Sample.terms 60 .up .down))).result = .ok rule' ∧
      (rule.check Sample.sixtyPercent).result = .ok r ∧
      (rule'.check Sample.sixtyPercent).result = .ok r' ∧ r'.passed = true ∧ r.passed = true := by
  have hruns : (do
      let rule ← standard.buildConfig Sample.assignments
        (.share Sample.header (Sample.terms 50 .normal .up))
      let rule' ← standard.buildConfig Sample.assignments
        (.share Sample.header (Sample.terms 60 .up .down))
      return (rule, rule', ← rule.check Sample.sixtyPercent,
        ← rule'.check Sample.sixtyPercent)).result.toOption.any
          (fun (run : Rule × Rule × CheckResult × CheckResult) => run.2.2.2.passed) = true := by
    decide +kernel
  obtain ⟨_, hruns, hpassed⟩ := exists_of_any hruns
  obtain ⟨rule, hrule, hruns⟩ := Run.bind_result_eq_ok.mp hruns
  obtain ⟨rule', hrule', hruns⟩ := Run.bind_result_eq_ok.mp hruns
  obtain ⟨r, hr, hruns⟩ := Run.bind_result_eq_ok.mp hruns
  obtain ⟨r', hr', ⟨⟩⟩ := Run.bind_result_eq_ok.mp hruns
  have htightens : (RuleConfig.share Sample.header (Sample.terms 50 .normal .up)).Tightens
      (.share Sample.header (Sample.terms 60 .up .down)) := by
    have hpercent : Binary64.ofDecimal false 50 0 ≤ .ofDecimal false 60 0 := by
      rw [Binary64.le_iff]
      decide +kernel
    exact .share _ _ _ hpercent ⟨rfl, .inr (.inr rfl)⟩ hpercent ⟨rfl, .inr (.inl rfl)⟩
  have hpass := (check_of_tightens htightens hrule hrule').2 _ r r' hr hr' hpassed
  exact ⟨rule, rule', r, r', hrule, hrule', hr, hr', hpassed, hpass⟩

end ExamAdmission
