import ExamAdmission.Proofs.Engine.Participants

/-! Users and groups share the identifiers of participants. The work of a user and that of a group
are kept apart just as long as no identifier stands for both; where one does, they are one list. -/

namespace ExamAdmission

namespace Assessment

def ownedBy (owner : Owner) (a : Assessment) : Bool := a.owner? = some owner

variable {a : Assessment} {key : Key}

theorem belongsTo_iff_owner? :
    a.belongsTo key = true ↔ a.owner? = some (.user key) ∨ a.owner? = some (.group key) := by
  rw [belongsTo, decide_eq_true_eq]
  rcases a.owner? with _ | user | group <;> simp [Owner.key]

theorem filter_belongsTo {L : List Assessment} (h : ∀ a ∈ L, a.owner? ≠ some (.group key)) :
    L.filter (belongsTo key) = L.filter (ownedBy (.user key)) := by
  refine List.filter_congr fun a ha => ?_
  rw [Bool.eq_iff_iff, belongsTo_iff_owner?, ownedBy, decide_eq_true_eq]
  exact or_iff_left (h a ha)

end Assessment

open Assessment (belongsTo ownedBy)

/-- No identifier stands for a user and for a group, both with work of their own. -/
def IdsApart (L : List Assessment) : Prop :=
  ∀ a ∈ L, ∀ b ∈ L, ∀ key, a.owner? = some (.user key) → b.owner? ≠ some (.group key)

section Groups

variable {L : List Assessment} {P : List String} {groups : Table (List Assessment)}
  (hgroups : (groupByParticipant L (.list (P.map .text))).result = .ok groups)

include hgroups

theorem mem_group_iff {key : Key} {group : List Assessment} (h : groups.find? key = some group)
    {a : Assessment} : a ∈ group ↔
      a ∈ L ∧ (a.owner? = some (.user key) ∨ a.owner? = some (.group key)) := by
  rw [find?_groupByParticipant hgroups h, List.mem_filter, Assessment.belongsTo_iff_owner?]

theorem forall_owner_eq_iff :
    (∀ key group, groups.find? key = some group →
      ∀ a ∈ group, ∀ b ∈ group, a.owner? = b.owner?) ↔ IdsApart L := by
  constructor
  · intro hsame a ha b hb key huser hgroup
    have hfilter : L.filter (belongsTo key) ≠ [] :=
      List.ne_nil_of_mem (List.mem_filter.mpr
        ⟨ha, Assessment.belongsTo_iff_owner?.mpr (.inl huser)⟩)
    obtain ⟨group, hfind⟩ :=
      Table.mem_keys_iff.mp ((mem_keys_groupByParticipant hgroups).mpr (.inr hfilter))
    have heq := hsame key group hfind a ((mem_group_iff hgroups hfind).mpr ⟨ha, .inl huser⟩) b
      ((mem_group_iff hgroups hfind).mpr ⟨hb, .inr hgroup⟩)
    rw [huser, hgroup] at heq
    cases heq
  · intro hapart key group hfind a ha b hb
    obtain ⟨haL, hauser | hagroup⟩ := (mem_group_iff hgroups hfind).mp ha
    all_goals obtain ⟨hbL, hbuser | hbgroup⟩ := (mem_group_iff hgroups hfind).mp hb
    · rw [hauser, hbuser]
    · exact absurd hbgroup (hapart a haL b hbL key hauser)
    · exact absurd hagroup (hapart b hbL a haL key hbuser)
    · rw [hagroup, hbgroup]

end Groups

namespace Engine

variable {engine : Engine} {L : List Assessment} {P : List String}
  {groups : Table (List Assessment)} {statuses : Table AdmissionStatus}

/-- A list holds the work of the user and of the group that an identifier stands for. No list has
two owners just if no identifier stands for two; and the status of a user whose identifier is that
of no group comes from the own work, whatever the groups do. -/
theorem owners_apart_iff
    (hgroups : (groupByParticipant L (.list (P.map .text))).result = .ok groups)
    (hstatuses : (engine.evaluateMany groups).result = .ok statuses) :
    (∀ key group, groups.find? key = some group → ∀ a, a ∈ group ↔
      a ∈ L ∧ (a.owner? = some (.user key) ∨ a.owner? = some (.group key))) ∧
    ((∀ key group, groups.find? key = some group →
      ∀ a ∈ group, ∀ b ∈ group, a.owner? = b.owner?) ↔ IdsApart L) ∧
    ∀ key, (∀ a ∈ L, a.owner? ≠ some (.group key)) →
      (∀ status, statuses.find? key = some status →
        (engine.evaluate (L.filter (ownedBy (.user key)))).result = .ok status) ∧
      ∀ L' groups' statuses', (∀ a ∈ L', a.owner? ≠ some (.group key)) →
        (groupByParticipant L' (.list (P.map .text))).result = .ok groups' →
        (engine.evaluateMany groups').result = .ok statuses' →
        L'.filter (ownedBy (.user key)) = L.filter (ownedBy (.user key)) →
        statuses'.find? key = statuses.find? key := by
  refine ⟨fun key group hfind a => mem_group_iff hgroups hfind, forall_owner_eq_iff hgroups,
    fun key hnone => ⟨fun status hstatus => ?_, ?_⟩⟩
  · rw [← Assessment.filter_belongsTo hnone]
    exact evaluate_of_find? hgroups hstatuses hstatus
  · intro L' groups' statuses' hnone' hgroups' hstatuses' hsame
    refine find?_evaluateMany_congr hgroups hstatuses hgroups' hstatuses' ?_
    rw [Assessment.filter_belongsTo hnone, Assessment.filter_belongsTo hnone', hsame]

end Engine

/-- A user with all points, and a group of the same identifier with none in one assignment. -/
def Sample.sharedId : List Assessment :=
  [assessment "7" "a1" (.int 10), assessment "7" "a2" (.int 20),
   ⟨.text "g", .text "a2", .null, .text "7", .int 0, .bool false⟩]

/-- The user is not admitted, and would be with the own work alone. -/
theorem Engine.owners_apart_iff_shared_id :
    ∃ engine groups statuses status own,
      (ofPolicy .standard Sample.assignments Sample.policy).result = .ok engine ∧
      (groupByParticipant Sample.sharedId (.list ([].map .text))).result = .ok groups ∧
      (engine.evaluateMany groups).result = .ok statuses ∧
      (¬ ∀ key group, groups.find? key = some group →
        ∀ a ∈ group, ∀ b ∈ group, a.owner? = b.owner?) ∧
      statuses.find? (.text "7") = some status ∧ status.hasAdmission = false ∧
      (engine.evaluate (Sample.sharedId.filter (ownedBy (.user (.text "7"))))).result = .ok own ∧
      own.hasAdmission = true := by
  have hruns : (do
      let engine ← ofPolicy .standard Sample.assignments Sample.policy
      let groups ← groupByParticipant Sample.sharedId (.list ([].map .text))
      let statuses ← engine.evaluateMany groups
      let own ← engine.evaluate (Sample.sharedId.filter (ownedBy (.user (.text "7"))))
      let joint := statuses.find? (.text "7")
      return (joint.map AdmissionStatus.hasAdmission, own.hasAdmission)).result.toOption.any
        (fun admissions => admissions = (some false, true)) = true := by
    rw [Sample.ofPolicy_policy]
    decide +kernel
  obtain ⟨_, hruns, hadmissions⟩ := exists_of_any hruns
  obtain ⟨engine, hengine, hruns⟩ := Run.bind_result_eq_ok.mp hruns
  obtain ⟨groups, hgroups, hruns⟩ := Run.bind_result_eq_ok.mp hruns
  obtain ⟨statuses, hstatuses, hruns⟩ := Run.bind_result_eq_ok.mp hruns
  obtain ⟨own, hown, ⟨⟩⟩ := Run.bind_result_eq_ok.mp hruns
  obtain ⟨hjoint, hadmitted⟩ := Prod.mk.inj (of_decide_eq_true hadmissions)
  obtain ⟨status, hstatus, hrefused⟩ := Option.map_eq_some_iff.mp hjoint
  refine ⟨engine, groups, statuses, status, own, hengine, hgroups, hstatuses, ?_, hstatus,
    hrefused, hown, hadmitted⟩
  rw [(owners_apart_iff hgroups hstatuses).2.1]
  intro hapart
  exact hapart (Sample.assessment "7" "a1" (.int 10)) (by simp [Sample.sharedId])
    ⟨.text "g", .text "a2", .null, .text "7", .int 0, .bool false⟩ (by simp [Sample.sharedId])
    (.text "7") rfl rfl

end ExamAdmission
