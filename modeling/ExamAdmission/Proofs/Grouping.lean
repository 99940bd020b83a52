import ExamAdmission.Engine
import ExamAdmission.Proofs.Document.Tables
import ExamAdmission.Proofs.Outcome

/-! Grouping by participant. The groups are the sublists of the participants, in the order of first
mention, and together they are the assessments that have one. -/

namespace ExamAdmission

namespace Table

variable {α : Type} {table : Table (List α)} {key : Key}

/-- All entries of a list pushed one after the other. -/
def pushAll (table : Table (List α)) (entries : List (Label × α)) : Table (List α) :=
  entries.foldl (fun table (label, a) => table.push label a) table

theorem pushAll_concat (entries : List (Label × α)) (label : Label) (a : α) :
    table.pushAll (entries ++ [(label, a)]) = (table.pushAll entries).push label a := by
  simp [pushAll]

theorem labels_pushAll {labels : List Label} (h : table.labels = firstMentions labels)
    (entries : List (Label × α)) :
    (table.pushAll entries).labels = firstMentions (labels ++ entries.map Prod.fst) := by
  induction entries using List.reverseRecOn with
  | nil => simpa [pushAll] using h
  | append_singleton entries entry ih =>
    rw [pushAll_concat, push, labels_put, List.map_append, ← List.append_assoc, List.map_singleton,
      firstMentions_concat, ← map_key_labels, ih]
    simp only [mem_firstMentions_key]

theorem find?_pushAll (table : Table (List α)) (entries : List (Label × α)) (key : Key) :
    ((table.pushAll entries).find? key).getD [] =
      (table.find? key).getD [] ++
        (entries.filter fun entry => entry.1.key = key).map Prod.snd := by
  induction entries using List.reverseRecOn with
  | nil => simp [pushAll]
  | append_singleton entries entry ih =>
    rw [pushAll_concat, push, find?_put]
    by_cases h : entry.1.key = key
    · subst h
      rw [if_pos rfl, Option.getD_some, ih]
      simp
    · rw [if_neg h, ih]
      simp [h]

theorem flatten_push (label : Label) (a : α) (table : Table (List α)) :
    (table.push label a).values.flatten.Perm (a :: table.values.flatten) := by
  induction table with
  | nil => exact .refl _
  | cons entry rest ih =>
    obtain ⟨other, group⟩ := entry
    by_cases h : other.key = label.key
    · have hput : push label a ((other, group) :: rest) = (other, group ++ [a]) :: rest := by
        simp [push, find?, put, h]
      rw [hput, values_cons, values_cons, List.flatten_cons, List.flatten_cons]
      simp
    · have hput : push label a ((other, group) :: rest) = (other, group) :: push label a rest := by
        simp [push, find?, put, h]
      rw [hput, values_cons, values_cons, List.flatten_cons, List.flatten_cons]
      exact (ih.append_left group).trans List.perm_middle

theorem flatten_pushAll (entries : List (Label × α)) :
    (table.pushAll entries).values.flatten.Perm
      (table.values.flatten ++ entries.map Prod.snd) := by
  induction entries using List.reverseRecOn with
  | nil => simp [pushAll]
  | append_singleton entries entry ih =>
    rw [pushAll_concat, List.map_append, ← List.append_assoc]
    refine (flatten_push _ _ _).trans ((ih.cons _).trans ?_)
    exact (List.perm_append_singleton _ _).symm

end Table

/-- Whose work an assessment is: that of a user, or of a group when there is no user. -/
inductive Owner where
  | user (key : Key)
  | group (key : Key)
deriving DecidableEq

/-- The owner as a participant, which does not tell users from groups. -/
def Owner.key : Owner → Key
  | .user key => key
  | .group key => key

namespace Assessment

def owner? (a : Assessment) : Option Owner :=
  match a.userId, a.groupId with
  | .null, .null => none
  | .null, group => group.key?.map .group
  | user, _ => user.key?.map .user

/-- The label of the user, and that of the group when there is no user. -/
def participant? (a : Assessment) : Option Label :=
  match a.userId, a.groupId with
  | .null, .null => none
  | .null, group => group.key?.map fun key => ⟨group, key⟩
  | user, _ => user.key?.map fun key => ⟨user, key⟩

/-- Whether the assessment has neither a user nor a group. -/
def isOrphan (a : Assessment) : Bool :=
  match a.userId, a.groupId with
  | .null, .null => true
  | _, _ => false

def belongsTo (key : Key) (a : Assessment) : Bool := a.owner?.map Owner.key = some key

variable {a : Assessment} {key : Key}

theorem participant?_of_ne_null (h : a.participantId ≠ .null) :
    a.participant? = a.participantId.key?.map fun key => ⟨a.participantId, key⟩ := by
  unfold participantId at h ⊢
  unfold participant?
  cases hu : a.userId with
  | null =>
    simp only [hu] at h ⊢
    cases hg : a.groupId <;> simp_all
  | _ => rfl

theorem isOrphan_iff : a.isOrphan = true ↔ a.participantId = .null := by
  unfold isOrphan participantId
  cases hu : a.userId with
  | null => cases hg : a.groupId <;> simp
  | _ => simp

theorem participant?_of_isOrphan (h : a.isOrphan = true) : a.participant? = none := by
  unfold isOrphan at h
  unfold participant?
  split at h
  · simp_all
  · cases h

theorem map_key_owner? (a : Assessment) :
    a.owner?.map Owner.key = a.participant?.map Label.key := by
  unfold owner? participant?
  cases hu : a.userId with
  | null => cases hg : a.groupId <;> simp [Function.comp_def, Owner.key]
  | _ => simp [Function.comp_def, Owner.key]

theorem belongsTo_iff_participant? :
    a.belongsTo key = true ↔ ∃ label, a.participant? = some label ∧ label.key = key := by
  rw [belongsTo, decide_eq_true_eq, map_key_owner?, Option.map_eq_some_iff]

end Assessment

variable {groups groups' : Table (List Assessment)} {a : Assessment} {assessments : List Assessment}

theorem groupInto_cons_orphan (h : a.participantId = .null) :
    groupInto groups (a :: assessments) =
      (do Run.tell (.withoutParticipant a.id); groupInto groups assessments) := by
  rw [groupInto, h]

theorem groupInto_cons_participant (h : a.participantId ≠ .null) :
    groupInto groups (a :: assessments) =
      (do
        let label ← Run.of a.participantId.label
        groupInto (groups.push label a) assessments) := by
  rw [groupInto]
  split
  · contradiction
  · rfl

/-- What each assessment is pushed as, the orphans left out. -/
def participantEntries (assessments : List Assessment) : List (Label × Assessment) :=
  assessments.filterMap fun a => a.participant?.map fun label => (label, a)

theorem groupInto_eq_ok :
    (groupInto groups assessments).result = .ok groups' ↔
      (∀ a ∈ assessments, a.isOrphan = true ∨ ∃ label, a.participant? = some label) ∧
        groups' = groups.pushAll (participantEntries assessments) := by
  induction assessments generalizing groups with
  | nil => exact ⟨fun h => ⟨by simp, (Except.ok.inj h).symm⟩, fun h => congrArg _ h.2.symm⟩
  | cons a rest ih =>
    rw [List.forall_mem_cons]
    by_cases h : a.participantId = .null
    · have hnone := Assessment.participant?_of_isOrphan (Assessment.isOrphan_iff.mpr h)
      rw [groupInto_cons_orphan h, Run.bind_result_eq_ok]
      simp [ih, Assessment.isOrphan_iff, h, participantEntries, hnone]
    · have hlabel := Assessment.participant?_of_ne_null h
      rw [groupInto_cons_participant h, Run.bind_result_eq_ok]
      cases hk : a.participantId.key? with
      | none =>
        simp [Value.label, hk, Assessment.isOrphan_iff, h, hlabel]
      | some key =>
        simp [Value.label, hk, ih, Assessment.isOrphan_iff, h, hlabel, participantEntries,
          Table.pushAll]

theorem groupInto_events (h : (groupInto groups assessments).result = .ok groups') :
    (groupInto groups assessments).events =
      (assessments.filter Assessment.isOrphan).map fun a => .withoutParticipant a.id := by
  induction assessments generalizing groups with
  | nil => rfl
  | cons a rest ih =>
    by_cases hn : a.participantId = .null
    · rw [groupInto_cons_orphan hn] at h ⊢
      obtain ⟨_, htell, hrest⟩ := Run.bind_result_eq_ok.mp h
      rw [Run.bind_events htell, ih hrest]
      simp [Assessment.isOrphan_iff.mpr hn]
    · rw [groupInto_cons_participant hn] at h ⊢
      obtain ⟨label, hlabel, hrest⟩ := Run.bind_result_eq_ok.mp h
      have hf : a.isOrphan = false :=
        Bool.eq_false_iff.mpr fun ho => hn (Assessment.isOrphan_iff.mp ho)
      rw [Run.bind_events hlabel, ih hrest]
      simp [hf]

theorem filter_participantEntries (key : Key) (assessments : List Assessment) :
    ((participantEntries assessments).filter fun entry => entry.1.key = key).map Prod.snd =
      assessments.filter (Assessment.belongsTo key) := by
  induction assessments with
  | nil => rfl
  | cons a rest ih =>
    cases hp : a.participant? with
    | none =>
      have hb : Assessment.belongsTo key a = false := by
        simp [Assessment.belongsTo, Assessment.map_key_owner?, hp]
      simp only [participantEntries, List.filterMap_cons, hp, Option.map_none] at ih ⊢
      rw [ih, List.filter_cons_of_neg (by simp [hb])]
    | some label =>
      simp only [participantEntries, List.filterMap_cons, hp, Option.map_some] at ih ⊢
      by_cases hk : label.key = key
      · have hb : Assessment.belongsTo key a = true :=
          Assessment.belongsTo_iff_participant?.mpr ⟨label, hp, hk⟩
        rw [List.filter_cons_of_pos (by simp [hk]), List.map_cons, ih, List.filter_cons_of_pos hb]
      · have hb : Assessment.belongsTo key a = false := by
          simp [Assessment.belongsTo, Assessment.map_key_owner?, hp, hk]
        rw [List.filter_cons_of_neg (by simp [hk]), ih, List.filter_cons_of_neg (by simp [hb])]

theorem map_snd_participantEntries (h : ∀ a ∈ assessments, a.isOrphan = true ∨
    ∃ label, a.participant? = some label) :
    (participantEntries assessments).map Prod.snd =
      assessments.filter fun a => !a.isOrphan := by
  induction assessments with
  | nil => rfl
  | cons a rest ih =>
    obtain ⟨ha, hrest⟩ := List.forall_mem_cons.mp h
    cases hp : a.participant? with
    | none =>
      have ho : a.isOrphan = true := by simpa [hp] using ha
      simpa [participantEntries, hp, ho] using ih hrest
    | some label =>
      have ho : a.isOrphan = false := by
        refine Bool.eq_false_iff.mpr fun ho => ?_
        rw [Assessment.participant?_of_isOrphan ho] at hp
        cases hp
      simpa [participantEntries, hp, ho] using ih hrest

theorem map_fst_participantEntries (assessments : List Assessment) :
    (participantEntries assessments).map Prod.fst =
      assessments.filterMap Assessment.participant? := by
  rw [participantEntries, List.map_filterMap]
  congr 1
  funext a
  cases a.participant? <;> rfl

theorem namedParticipants_texts (P : List String) :
    namedParticipants (.list (P.map .text)) = .ok (P.map Label.ofText) := by
  cases P with
  | nil => rfl
  | cons s rest =>
    have hmap : ((s :: rest).map Value.text).mapM Value.label =
        (.ok ((s :: rest).map Label.ofText) : Except Fault (List Label)) := by
      rw [mapM_eq_ok, List.forall₂_map_left_iff, List.forall₂_map_right_iff]
      exact List.forall₂_same.mpr fun _ _ => rfl
    exact hmap

/-- The table before any assessment: the participants named in advance have empty groups. -/
def emptyGroups (P : List String) : Table (List Assessment) :=
  Table.ofList (P.map fun s => (Label.ofText s, []))

theorem labels_emptyGroups (P : List String) :
    (emptyGroups P).labels = firstMentions (P.map Label.ofText) := by
  rw [emptyGroups, Table.labels_ofList, List.map_map]
  rfl

theorem values_emptyGroups {P : List String} {group : List Assessment}
    (h : group ∈ (emptyGroups P).values) : group = [] := by
  have hm := Table.mem_values_ofList h
  rw [List.map_map, List.mem_map] at hm
  obtain ⟨_, -, hg⟩ := hm
  exact hg.symm

theorem find?_emptyGroups (P : List String) (key : Key) :
    ((emptyGroups P).find? key).getD [] = [] := by
  cases hf : (emptyGroups P).find? key with
  | none => rfl
  | some group => exact values_emptyGroups (Table.mem_values_of_find? hf)

theorem groupByParticipant_eq_ok {P : List String} :
    (groupByParticipant assessments (.list (P.map .text))).result = .ok groups ↔
      (∀ a ∈ assessments, a.isOrphan = true ∨ ∃ label, a.participant? = some label) ∧
        groups = (emptyGroups P).pushAll (participantEntries assessments) := by
  rw [groupByParticipant, Run.bind_result_eq_ok]
  simp only [Run.of_result, namedParticipants_texts, Except.ok.injEq, exists_eq_left', List.map_map,
    groupInto_eq_ok]
  rfl

section Groups

variable {P : List String}
  (h : (groupByParticipant assessments (.list (P.map .text))).result = .ok groups)

include h

theorem labels_groupByParticipant : groups.labels =
    firstMentions (P.map Label.ofText ++ assessments.filterMap Assessment.participant?) := by
  rw [(groupByParticipant_eq_ok.mp h).2, Table.labels_pushAll (labels_emptyGroups P),
    map_fst_participantEntries]

theorem mem_keys_groupByParticipant {key : Key} : key ∈ groups.keys ↔
    key ∈ P.map Key.text ∨ assessments.filter (Assessment.belongsTo key) ≠ [] := by
  have hP : (P.map Label.ofText).map Label.key = P.map Key.text := by
    rw [List.map_map]
    rfl
  have hL : key ∈ (assessments.filterMap Assessment.participant?).map Label.key ↔
      assessments.filter (Assessment.belongsTo key) ≠ [] := by
    rw [List.mem_map, ← List.isEmpty_eq_false_iff, List.isEmpty_eq_false_iff_exists_mem]
    constructor
    · rintro ⟨label, hlabel, rfl⟩
      obtain ⟨a, ha, hp⟩ := List.mem_filterMap.mp hlabel
      exact ⟨a, List.mem_filter.mpr ⟨ha, Assessment.belongsTo_iff_participant?.mpr ⟨label, hp, rfl⟩⟩⟩
    · rintro ⟨a, ha⟩
      obtain ⟨hm, hb⟩ := List.mem_filter.mp ha
      obtain ⟨label, hp, hk⟩ := Assessment.belongsTo_iff_participant?.mp hb
      exact ⟨label, List.mem_filterMap.mpr ⟨a, hm, hp⟩, hk⟩
  rw [← Table.map_key_labels, labels_groupByParticipant h, mem_firstMentions_key, List.map_append,
    List.mem_append, hP, hL]

theorem find?_groupByParticipant {key : Key} {group : List Assessment}
    (hg : groups.find? key = some group) :
    group = assessments.filter (Assessment.belongsTo key) := by
  have hfind := Table.find?_pushAll (emptyGroups P) (participantEntries assessments) key
  rw [← (groupByParticipant_eq_ok.mp h).2, hg, Option.getD_some, find?_emptyGroups,
    List.nil_append, filter_participantEntries] at hfind
  exact hfind

theorem flatten_groupByParticipant :
    groups.values.flatten.Perm (assessments.filter fun a => !a.isOrphan) := by
  obtain ⟨hlabelled, hgroups⟩ := groupByParticipant_eq_ok.mp h
  have hflat : (emptyGroups P).values.flatten = [] :=
    List.flatten_eq_nil_iff.mpr fun _ hm => values_emptyGroups hm
  have hperm := (emptyGroups P).flatten_pushAll (participantEntries assessments)
  rwa [← hgroups, hflat, List.nil_append, map_snd_participantEntries hlabelled] at hperm

theorem groupByParticipant_events :
    (groupByParticipant assessments (.list (P.map .text))).events =
      (assessments.filter Assessment.isOrphan).map fun a => .withoutParticipant a.id := by
  obtain ⟨named, hnamed, hinto⟩ := Run.bind_result_eq_ok.mp h
  rw [groupByParticipant, Run.bind_events hnamed, Run.of_events, List.nil_append]
  exact groupInto_events hinto

end Groups

end ExamAdmission
