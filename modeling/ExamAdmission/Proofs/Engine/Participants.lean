import ExamAdmission.Proofs.Grouping
import ExamAdmission.Proofs.Rule.Counting

/-! A course is evaluated participant by participant. Nobody's status depends on the assessments of
the others, and the event at the end counts the participants and the admitted ones. -/

namespace ExamAdmission

namespace Engine

variable {engine : Engine} {groups : Table (List Assessment)} {statuses : Table AdmissionStatus}

theorem evaluateEach_eq_ok : (engine.evaluateEach groups).result = .ok statuses ↔
    List.Forall₂ (fun g s => g.1 = s.1 ∧ (engine.evaluate g.2).result = .ok s.2) groups
      statuses := by
  induction groups generalizing statuses with
  | nil => cases statuses <;> simp [evaluateEach]
  | cons group rest ih =>
    simp only [evaluateEach, Run.bind_result_eq_ok, ih, Run.pure_result, Except.ok.injEq,
      List.forall₂_cons_left_iff]
    constructor
    · rintro ⟨status, hs, others, ho, rfl⟩
      exact ⟨(group.1, status), others, ⟨rfl, hs⟩, ho, rfl⟩
    · rintro ⟨⟨_, status⟩, others, ⟨rfl, hs⟩, ho, rfl⟩
      exact ⟨status, hs, others, ho, rfl⟩

theorem evaluateEach_events (h : (engine.evaluateEach groups).result = .ok statuses) :
    (engine.evaluateEach groups).events =
      groups.values.flatMap fun group => (engine.evaluate group).events := by
  induction groups generalizing statuses with
  | nil => rfl
  | cons group rest ih =>
    obtain ⟨status, hs, hrest⟩ := Run.bind_result_eq_ok.mp h
    obtain ⟨others, ho, -⟩ := Run.bind_result_eq_ok.mp hrest
    rw [evaluateEach, Run.bind_events hs, Run.bind_events ho, ih ho]
    simp [Table.values_cons]

section Each

variable (h : (engine.evaluateEach groups).result = .ok statuses)

include h

theorem labels_evaluateEach : statuses.labels = groups.labels := by
  have hall := evaluateEach_eq_ok.mp h
  clear h
  induction hall with
  | nil => rfl
  | cons hs _ ih =>
    simp only [Table.labels, List.map_cons] at ih ⊢
    rw [ih, hs.1]

theorem find?_evaluateEach (key : Key) :
    (groups.find? key = none ∧ statuses.find? key = none) ∨
      ∃ group status, groups.find? key = some group ∧ statuses.find? key = some status ∧
        (engine.evaluate group).result = .ok status := by
  have hall := evaluateEach_eq_ok.mp h
  clear h
  induction hall with
  | nil => exact .inl ⟨rfl, rfl⟩
  | @cons g s _ _ hs _ ih =>
    by_cases hk : g.1.key = key
    · refine .inr ⟨g.2, s.2, ?_, ?_, hs.2⟩
      · rw [Table.find?, if_pos hk]
      · rw [Table.find?, ← hs.1, if_pos hk]
    · rw [Table.find?, Table.find?, ← hs.1, if_neg hk, if_neg hk]
      exact ih

end Each

theorem evaluateMany_eq_ok : (engine.evaluateMany groups).result = .ok statuses ↔
    (engine.evaluateEach groups).result = .ok statuses := by
  simp [evaluateMany, Run.bind_result_eq_ok]

theorem evaluateMany_events (h : (engine.evaluateMany groups).result = .ok statuses) :
    (engine.evaluateMany groups).events =
      (groups.values.flatMap fun group => (engine.evaluate group).events) ++
        [.statusComputed statuses.length
          (statuses.values.filter AdmissionStatus.hasAdmission).length engine.rules.length] := by
  have heach := evaluateMany_eq_ok.mp h
  rw [evaluateMany, Run.bind_events heach, evaluateEach_events heach]
  rfl

section Course

variable {L : List Assessment} {P : List String}
  (hgroups : (groupByParticipant L (.list (P.map .text))).result = .ok groups)
  (hstatuses : (engine.evaluateMany groups).result = .ok statuses)

include hgroups hstatuses

theorem evaluate_of_find? {key : Key} {status : AdmissionStatus}
    (h : statuses.find? key = some status) :
    (engine.evaluate (L.filter (Assessment.belongsTo key))).result = .ok status := by
  rcases find?_evaluateEach (evaluateMany_eq_ok.mp hstatuses) key with
    ⟨-, hnone⟩ | ⟨group, found, hgroup, hfound, hrun⟩
  · rw [hnone] at h
    cases h
  · cases hfound.symm.trans h
    rwa [find?_groupByParticipant hgroups hgroup] at hrun

theorem find?_evaluateMany_congr {L' : List Assessment} {groups' : Table (List Assessment)}
    {statuses' : Table AdmissionStatus} {key : Key}
    (hgroups' : (groupByParticipant L' (.list (P.map .text))).result = .ok groups')
    (hstatuses' : (engine.evaluateMany groups').result = .ok statuses')
    (hsame : L'.filter (Assessment.belongsTo key) = L.filter (Assessment.belongsTo key)) :
    statuses'.find? key = statuses.find? key := by
  have hkeys : key ∈ groups'.keys ↔ key ∈ groups.keys := by
    rw [mem_keys_groupByParticipant hgroups', mem_keys_groupByParticipant hgroups, hsame]
  rcases find?_evaluateEach (evaluateMany_eq_ok.mp hstatuses) key with
    ⟨hg, hs⟩ | ⟨group, status, hg, hs, hrun⟩
  · have hnone : groups'.find? key = none := by
      refine Table.find?_eq_none fun hm => ?_
      obtain ⟨group, hfound⟩ := Table.mem_keys_iff.mp (hkeys.mp hm)
      rw [hg] at hfound
      cases hfound
    rcases find?_evaluateEach (evaluateMany_eq_ok.mp hstatuses') key with
      ⟨-, hs'⟩ | ⟨group, _, hg', -, -⟩
    · rw [hs, hs']
    · rw [hnone] at hg'
      cases hg'
  · obtain ⟨group', hg'⟩ := Table.mem_keys_iff.mp (hkeys.mpr (Table.mem_keys_iff.mpr ⟨group, hg⟩))
    rcases find?_evaluateEach (evaluateMany_eq_ok.mp hstatuses') key with
      ⟨hnone, -⟩ | ⟨_, status', hfound, hs', -⟩
    · rw [hg'] at hnone
      cases hnone
    · have hrun' := evaluate_of_find? hgroups' hstatuses' hs'
      rw [hsame, evaluate_of_find? hgroups hstatuses hs] at hrun'
      rw [hs, hs', Except.ok.inj hrun']

/-- Evaluating a course is evaluating each participant alone: who has a status and in which order,
whose assessments it is made from, what is told of orphans and what is counted at the end. -/
theorem evaluateMany_groupByParticipant :
    groups.labels = firstMentions (P.map Label.ofText ++ L.filterMap Assessment.participant?) ∧
    statuses.labels = groups.labels ∧
    (∀ key group, groups.find? key = some group → group = L.filter (Assessment.belongsTo key)) ∧
    groups.values.flatten.Perm (L.filter fun a => !a.isOrphan) ∧
    (groupByParticipant L (.list (P.map .text))).events =
      ((L.filter Assessment.isOrphan).map fun a => .withoutParticipant a.id) ∧
    (∀ key status, statuses.find? key = some status →
      (engine.evaluate (L.filter (Assessment.belongsTo key))).result = .ok status) ∧
    (∀ L' groups' statuses' key,
      (groupByParticipant L' (.list (P.map .text))).result = .ok groups' →
      (engine.evaluateMany groups').result = .ok statuses' →
      L'.filter (Assessment.belongsTo key) = L.filter (Assessment.belongsTo key) →
      statuses'.find? key = statuses.find? key) ∧
    (engine.evaluateMany groups).events.getLast? =
      some (.statusComputed statuses.keys.length
        (statuses.values.filter AdmissionStatus.hasAdmission).length engine.rules.length) := by
  refine ⟨labels_groupByParticipant hgroups,
    labels_evaluateEach (evaluateMany_eq_ok.mp hstatuses), ?_,
    flatten_groupByParticipant hgroups, groupByParticipant_events hgroups, ?_, ?_, ?_⟩
  · intro key group hg
    exact find?_groupByParticipant hgroups hg
  · intro key status hs
    exact evaluate_of_find? hgroups hstatuses hs
  · intro L' groups' statuses' key hgroups' hstatuses' hsame
    exact find?_evaluateMany_congr hgroups hstatuses hgroups' hstatuses' hsame
  · rw [evaluateMany_events hstatuses, List.getLast?_concat, Table.keys, List.length_map]

end Course

end Engine

/-- Two users whose assessments alternate, and an orphan among them. -/
def Sample.course : List Assessment :=
  [assessment "u" "a1" (.int 6), ⟨.text "o", .text "a1", .null, .null, .int 9, .bool false⟩,
   assessment "v" "a2" (.int 20), assessment "u" "a2" (.int 18)]

theorem Engine.evaluateMany_alternating_users :
    ∃ engine groups statuses,
      (ofPolicy .standard Sample.assignments Sample.policy).result = .ok engine ∧
      (groupByParticipant Sample.course (.list (["w", "v"].map .text))).result = .ok groups ∧
      (engine.evaluateMany groups).result = .ok statuses ∧
      groups.labels = firstMentions (["w", "v"].map Label.ofText ++
        Sample.course.filterMap Assessment.participant?) ∧
      statuses.labels = groups.labels ∧
      ∀ key status, statuses.find? key = some status →
        (engine.evaluate (Sample.course.filter (Assessment.belongsTo key))).result =
          .ok status := by
  have hruns : (do
      let engine ← ofPolicy .standard Sample.assignments Sample.policy
      let groups ← groupByParticipant Sample.course (.list (["w", "v"].map .text))
      let statuses ← engine.evaluateMany groups
      return (engine, groups, statuses)).result.isOk = true := by
    rw [Sample.ofPolicy_policy]
    decide +kernel
  obtain ⟨_, hruns⟩ := exists_of_isOk hruns
  obtain ⟨engine, hengine, hruns⟩ := Run.bind_result_eq_ok.mp hruns
  obtain ⟨groups, hgroups, hruns⟩ := Run.bind_result_eq_ok.mp hruns
  obtain ⟨statuses, hstatuses, -⟩ := Run.bind_result_eq_ok.mp hruns
  obtain ⟨hlabels, hsame, -, -, -, hstatus, -, -⟩ :=
    evaluateMany_groupByParticipant hgroups hstatuses
  exact ⟨engine, groups, statuses, hengine, hgroups, hstatuses, hlabels, hsame, hstatus⟩

end ExamAdmission
