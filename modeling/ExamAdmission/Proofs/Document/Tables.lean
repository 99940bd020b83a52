import ExamAdmission.Document.Table
import Mathlib.Data.List.Nodup
import Mathlib.Tactic

/-! Tables made from a list of entries: the labels are those of the first mentions, and a key has
the value that it was given last. -/

namespace ExamAdmission

/-- The labels of a list without those whose key was mentioned before. -/
def firstMentions : List Label → List Label
  | [] => []
  | label :: rest => label :: (firstMentions rest).filter fun other => other.key ≠ label.key

theorem mem_firstMentions_key {labels : List Label} {key : Key} :
    key ∈ (firstMentions labels).map Label.key ↔ key ∈ labels.map Label.key := by
  induction labels with
  | nil => simp [firstMentions]
  | cons label rest ih =>
    by_cases hk : key = label.key
    · simp [firstMentions, hk]
    · have hfilter : key ∈ ((firstMentions rest).filter fun other => other.key ≠ label.key).map
          Label.key ↔ key ∈ (firstMentions rest).map Label.key := by
        simp only [List.mem_map, List.mem_filter, decide_eq_true_eq]
        constructor
        · rintro ⟨other, ⟨hm, -⟩, rfl⟩
          exact ⟨other, hm, rfl⟩
        · rintro ⟨other, hm, rfl⟩
          exact ⟨other, ⟨hm, hk⟩, rfl⟩
      simp only [firstMentions, List.map_cons, List.mem_cons, hk, false_or]
      rw [hfilter, ih]

theorem firstMentions_concat (labels : List Label) (label : Label) :
    firstMentions (labels ++ [label]) =
      if label.key ∈ labels.map Label.key then firstMentions labels
      else firstMentions labels ++ [label] := by
  induction labels with
  | nil => simp [firstMentions]
  | cons first rest ih =>
    simp only [List.cons_append, firstMentions, ih, List.map_cons, List.mem_cons]
    by_cases hr : label.key ∈ rest.map Label.key
    · simp only [hr, or_true, if_true]
    · rw [if_neg hr]
      by_cases hf : label.key = first.key <;> simp only [hr, or_false] <;> simp [hf]

theorem firstMentions_sublist (labels : List Label) : (firstMentions labels).Sublist labels := by
  induction labels with
  | nil => exact .slnil
  | cons label rest ih => exact (List.filter_sublist.trans ih).cons_cons label

theorem nodup_firstMentions (labels : List Label) :
    ((firstMentions labels).map Label.key).Nodup := by
  induction labels with
  | nil => simp [firstMentions]
  | cons label rest ih =>
    simp only [firstMentions, List.map_cons, List.nodup_cons]
    refine ⟨by simp, ih.sublist ?_⟩
    exact List.filter_sublist.map _

theorem map_key_firstMentions (labels : List Label) :
    (firstMentions labels).map Label.key = (labels.map Label.key).eraseDups := by
  induction labels using List.reverseRecOn with
  | nil => rfl
  | append_singleton labels label ih =>
    rw [firstMentions_concat, List.map_append, List.eraseDups_append, ← ih, List.map_singleton]
    by_cases h : label.key ∈ labels.map Label.key
    · have hkeys : [label.key].removeAll (labels.map Label.key) = [] := by
        simpa [List.removeAll] using h
      rw [if_pos h, hkeys, List.eraseDups_nil, List.append_nil]
    · have hkeys : [label.key].removeAll (labels.map Label.key) = [label.key] := by
        simpa [List.removeAll] using h
      rw [if_neg h, hkeys, List.map_append]
      rfl

namespace Table

variable {α : Type} {label : Label} {a : α} {key : Key} {table : Table α}

def labels (table : Table α) : List Label := table.map Prod.fst

theorem keys_cons (entry : Label × α) (table : Table α) :
    keys (entry :: table) = entry.1.key :: table.keys := rfl

theorem values_cons (entry : Label × α) (table : Table α) :
    values (entry :: table) = entry.2 :: table.values := rfl

theorem map_key_labels (table : Table α) : table.labels.map Label.key = table.keys := by
  simp [labels, keys]

theorem labels_put (label : Label) (a : α) (table : Table α) :
    (put label a table).labels =
      if label.key ∈ table.keys then table.labels else table.labels ++ [label] := by
  induction table with
  | nil => simp [put, labels, keys]
  | cons entry rest ih =>
    obtain ⟨other, b⟩ := entry
    by_cases h : other.key = label.key
    · simp [put, labels, keys, h]
    · have h' : ¬label.key = other.key := fun e => h e.symm
      simp only [put, labels, keys] at ih ⊢
      simp only [if_neg h, List.map_cons, ih, List.mem_cons, h', false_or]
      by_cases hm : label.key ∈ rest.map fun entry => entry.1.key <;> simp only [hm] <;> simp

theorem mem_keys_iff : key ∈ table.keys ↔ ∃ a, table.find? key = some a := by
  induction table with
  | nil => simp [keys, find?]
  | cons entry rest ih =>
    obtain ⟨other, b⟩ := entry
    by_cases h : other.key = key
    · simp [keys, find?, h]
    · have h' : ¬key = other.key := fun e => h e.symm
      simpa [keys, find?, h, h'] using ih

theorem mem_values_of_find? (h : table.find? key = some a) : a ∈ table.values := by
  induction table with
  | nil => cases h
  | cons entry rest ih =>
    rw [values_cons, List.mem_cons]
    by_cases hk : entry.1.key = key
    · rw [find?, if_pos hk] at h
      exact .inl (Option.some.inj h).symm
    · rw [find?, if_neg hk] at h
      exact .inr (ih h)

theorem find?_eq_none (h : key ∉ table.keys) : table.find? key = none := by
  rw [mem_keys_iff] at h
  cases hf : table.find? key with
  | none => rfl
  | some a => exact absurd ⟨a, hf⟩ h

theorem mem_put {e : Label × α} (h : e ∈ put label a table) :
    (e.1.key = label.key ∧ e.2 = a) ∨ e ∈ table := by
  induction table with
  | nil =>
    cases List.mem_singleton.mp h
    exact .inl ⟨rfl, rfl⟩
  | cons entry rest ih =>
    obtain ⟨other, c⟩ := entry
    by_cases hk : other.key = label.key
    · rw [put, if_pos hk, List.mem_cons] at h
      rcases h with rfl | h
      · exact .inl ⟨hk, rfl⟩
      · exact .inr (List.mem_cons_of_mem _ h)
    · rw [put, if_neg hk, List.mem_cons] at h
      rcases h with rfl | h
      · exact .inr List.mem_cons_self
      · exact (ih h).imp_right (List.mem_cons_of_mem _)

theorem sum_values_put (f : α → ℕ) (label : Label) (a : α) (table : Table α) :
    ((put label a table).values.map f).sum ≤ (table.values.map f).sum + f a := by
  induction table with
  | nil => simp [put, values]
  | cons entry rest ih =>
    obtain ⟨other, b⟩ := entry
    simp only [put]
    split
    · simp only [values_cons, List.map_cons, List.sum_cons]
      omega
    · simp only [values_cons, List.map_cons, List.sum_cons]
      omega

theorem put_append (label : Label) (a : α) (front back : Table α) :
    put label a (front ++ back) =
      if label.key ∈ front.keys then put label a front ++ back
      else front ++ put label a back := by
  induction front with
  | nil => simp [keys]
  | cons entry rest ih =>
    obtain ⟨other, b⟩ := entry
    simp only [keys, List.map_cons, List.mem_cons] at ih ⊢
    by_cases h : other.key = label.key
    · simp [put, h]
    · have h' : ¬label.key = other.key := fun e => h e.symm
      simp only [List.cons_append, put, if_neg h, ih, h', false_or]
      by_cases hm : label.key ∈ rest.map fun entry => entry.1.key <;> simp only [hm] <;> simp

theorem ofList_concat (entries : List (Label × α)) (label : Label) (a : α) :
    ofList (entries ++ [(label, a)]) = put label a (ofList entries) := by
  simp [ofList]

theorem labels_ofList (entries : List (Label × α)) :
    (ofList entries).labels = firstMentions (entries.map Prod.fst) := by
  induction entries using List.reverseRecOn with
  | nil => rfl
  | append_singleton entries entry ih =>
    rw [ofList_concat, labels_put, List.map_append, List.map_singleton, firstMentions_concat, ih,
      ← map_key_labels, ih]
    simp only [mem_firstMentions_key]

theorem keys_ofList (entries : List (Label × α)) :
    (ofList entries).keys = (entries.map fun entry => entry.1.key).eraseDups := by
  rw [← map_key_labels, labels_ofList, map_key_firstMentions, List.map_map]
  rfl

theorem mem_keys_ofList {entries : List (Label × α)} :
    key ∈ (ofList entries).keys ↔ key ∈ entries.map fun entry => entry.1.key := by
  rw [← map_key_labels, labels_ofList, mem_firstMentions_key, List.map_map]
  rfl

theorem nodup_keys_ofList (entries : List (Label × α)) : (ofList entries).keys.Nodup := by
  rw [← map_key_labels, labels_ofList]
  exact nodup_firstMentions _

/-- The last entry of a key decides. -/
theorem find?_ofList (entries : List (Label × α)) (key : Key) :
    (ofList entries).find? key =
      (entries.filter fun entry => entry.1.key = key).getLast?.map Prod.snd := by
  induction entries using List.reverseRecOn with
  | nil => rfl
  | append_singleton entries entry ih =>
    rw [ofList_concat, find?_put, ih]
    by_cases h : entry.1.key = key <;> simp [h]

theorem put_of_not_mem (h : label.key ∉ table.keys) :
    put label a table = table ++ [(label, a)] := by
  have happend := put_append label a table []
  rwa [List.append_nil, if_neg h] at happend

theorem ofList_insert {before after : List (Label × α)}
    (hnew : ∀ e ∈ before ++ after, e.1.key ≠ label.key) :
    ∃ front back, ofList (before ++ after) = front ++ back ∧
      ofList (before ++ (label, a) :: after) = front ++ (label, a) :: back := by
  induction after using List.reverseRecOn with
  | nil =>
    have hfresh : label.key ∉ (ofList before).keys := by
      rw [mem_keys_ofList, List.mem_map]
      rintro ⟨e, he, hk⟩
      exact hnew e (List.mem_append_left _ he) hk
    refine ⟨ofList before, [], by simp, ?_⟩
    rw [ofList_concat, put_of_not_mem hfresh]
  | append_singleton after e ih =>
    obtain ⟨front, back, hold, hinsert⟩ := ih fun e he => hnew e (by
      rw [← List.append_assoc]
      exact List.mem_append_left _ he)
    have hne : ¬ label.key = e.1.key := fun hk => hnew e (by simp) hk.symm
    rw [← List.append_assoc, ofList_concat, hold, ← List.cons_append, ← List.append_assoc,
      ofList_concat, hinsert, put_append, put_append]
    by_cases hm : e.1.key ∈ front.keys
    · exact ⟨put e.1 e.2 front, back, if_pos hm, if_pos hm⟩
    · refine ⟨front, put e.1 e.2 back, if_neg hm, ?_⟩
      rw [if_neg hm, put, if_neg hne]

theorem sum_values_ofList (f : α → ℕ) (entries : List (Label × α)) :
    ((ofList entries).values.map f).sum ≤ (entries.map fun entry => f entry.2).sum := by
  induction entries using List.reverseRecOn with
  | nil => exact Nat.zero_le _
  | append_singleton entries entry ih =>
    rw [ofList_concat, List.map_append, List.sum_append]
    exact (sum_values_put f _ _ _).trans (Nat.add_le_add ih (by simp))

theorem mem_ofList {entries : List (Label × α)} {e : Label × α} (h : e ∈ ofList entries) :
    ∃ entry ∈ entries, entry.1.key = e.1.key ∧ entry.2 = e.2 := by
  induction entries using List.reverseRecOn with
  | nil => cases h
  | append_singleton entries entry ih =>
    rw [ofList_concat] at h
    rcases mem_put h with ⟨hkey, hvalue⟩ | h
    · exact ⟨entry, by simp, hkey.symm, hvalue.symm⟩
    · obtain ⟨entry', hmem, hentry⟩ := ih h
      exact ⟨entry', List.mem_append_left _ hmem, hentry⟩

theorem mem_values_ofList {entries : List (Label × α)} (h : a ∈ (ofList entries).values) :
    a ∈ entries.map Prod.snd := by
  obtain ⟨e, he, rfl⟩ := List.mem_map.mp h
  obtain ⟨entry, hentry, -, hvalue⟩ := mem_ofList he
  exact List.mem_map.mpr ⟨entry, hentry, hvalue⟩

theorem find?_of_mem {e : Label × α} (hn : table.keys.Nodup) (h : e ∈ table) :
    table.find? e.1.key = some e.2 := by
  induction table with
  | nil => cases h
  | cons entry rest ih =>
    obtain ⟨hnew, hrest⟩ := List.nodup_cons.mp (keys_cons entry rest ▸ hn)
    rcases List.mem_cons.mp h with rfl | h
    · rw [find?, if_pos rfl]
    · have hne : entry.1.key ≠ e.1.key := by
        intro heq
        exact hnew (heq ▸ List.mem_map_of_mem h)
      rw [find?, if_neg hne]
      exact ih hrest h

theorem ofList_of_nodup (h : table.keys.Nodup) : ofList table = table := by
  induction table using List.reverseRecOn with
  | nil => rfl
  | append_singleton front entry ih =>
    simp only [keys, List.map_append, List.map_singleton] at h
    obtain ⟨hfront, -, hdisjoint⟩ := List.nodup_append.mp h
    have hnew : entry.1.key ∉ keys front := fun hm => hdisjoint _ hm _ (by simp) rfl
    rw [ofList_concat, ih hfront, put_of_not_mem hnew]

theorem exists_of_find? (h : table.find? key = some a) :
    ∃ front label back, table = front ++ (label, a) :: back ∧ label.key = key := by
  induction table with
  | nil => cases h
  | cons entry rest ih =>
    by_cases hk : entry.1.key = key
    · rw [find?, if_pos hk] at h
      cases h
      exact ⟨[], entry.1, rest, rfl, hk⟩
    · rw [find?, if_neg hk] at h
      obtain ⟨front, label, back, rfl, hlabel⟩ := ih h
      exact ⟨entry :: front, label, back, rfl, hlabel⟩

theorem find?_remove {front back : Table α} (h : label.key ≠ key) :
    (front ++ (label, a) :: back).find? key = (front ++ back).find? key := by
  induction front with
  | nil => rw [List.nil_append, List.nil_append, find?, if_neg h]
  | cons entry rest ih => rw [List.cons_append, List.cons_append, find?, find?, ih]

/-- A table without repetitions that has no entry above that of another table has no greater sum,
whatever the entries are counted by. -/
theorem sum_values_le {table' : Table α} (f : α → ℕ) (hn : table.keys.Nodup)
    (h : ∀ e ∈ table, ∃ a, table'.find? e.1.key = some a ∧ f e.2 ≤ f a) :
    (table.values.map f).sum ≤ (table'.values.map f).sum := by
  induction table generalizing table' with
  | nil => exact Nat.zero_le _
  | cons entry rest ih =>
    obtain ⟨⟨a, ha, hle⟩, hrest⟩ := List.forall_mem_cons.mp h
    obtain ⟨hnew, hnodup⟩ := List.nodup_cons.mp (keys_cons entry rest ▸ hn)
    obtain ⟨front, label, back, rfl, hkey⟩ := exists_of_find? ha
    have hsum : ((values rest).map f).sum ≤ ((values (front ++ back)).map f).sum := by
      refine ih hnodup fun e he => ?_
      obtain ⟨b, hb, hfb⟩ := hrest e he
      have hne : label.key ≠ e.1.key := by
        intro heq
        exact hnew (hkey ▸ heq ▸ List.mem_map_of_mem he)
      exact ⟨b, (find?_remove hne).symm.trans hb, hfb⟩
    simp only [values, List.map_append, List.map_cons, List.sum_append, List.sum_cons] at hsum ⊢
    omega

theorem values_eq_filterMap (hn : table.keys.Nodup) :
    table.values = table.keys.filterMap table.find? := by
  induction table with
  | nil => rfl
  | cons entry rest ih =>
    obtain ⟨hnew, hrest⟩ := List.nodup_cons.mp (keys_cons entry rest ▸ hn)
    have hlookup : ∀ key ∈ keys rest, find? (entry :: rest) key = find? rest key := by
      intro key hkey
      have hne : entry.1.key ≠ key := fun heq => hnew (heq ▸ hkey)
      rw [find?, if_neg hne]
    have hfirst : find? (entry :: rest) entry.1.key = some entry.2 := if_pos rfl
    rw [values_cons, keys_cons, List.filterMap_cons, hfirst, List.filterMap_congr hlookup, ih hrest]

theorem values_of_keys (hn : table.keys.Nodup) (h : ∀ k ∈ table.keys, k = key) :
    table.values = (table.find? key).toList := by
  cases table with
  | nil => rfl
  | cons entry rest =>
    have hkey : entry.1.key = key := h _ List.mem_cons_self
    cases rest with
    | nil => simp [values, find?, hkey]
    | cons other _ =>
      have hother : other.1.key = key := h _ (List.mem_cons_of_mem _ List.mem_cons_self)
      rw [keys_cons, keys_cons, hkey, hother] at hn
      simp at hn

theorem values_perm {table' : Table α} (hn : table.keys.Nodup) (hn' : table'.keys.Nodup)
    (h : ∀ key, table.find? key = table'.find? key) : table.values.Perm table'.values := by
  have hkeys : table.keys.Perm table'.keys := by
    refine (List.perm_ext_iff_of_nodup hn hn').mpr fun key => ?_
    rw [mem_keys_iff, mem_keys_iff, h key]
  rw [values_eq_filterMap hn, values_eq_filterMap hn', funext h]
  exact hkeys.filterMap _

end Table

end ExamAdmission
