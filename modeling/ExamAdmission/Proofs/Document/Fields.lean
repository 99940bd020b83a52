import ExamAdmission.Document.Value

/-! Fields of objects, looked up by name. A written field is found again, and the others stay. -/

namespace ExamAdmission

theorem field?_cons (name other : String) (w : Value) (rest : List (String × Value)) :
    field? name ((other, w) :: rest) = if other = name then some w else field? name rest := by
  by_cases h : other = name
  · simp [field?, h]
  · have hname : (name == other) = false := beq_false_of_ne fun e => h e.symm
    simp only [field?, List.lookup_cons, hname, if_neg h]

theorem field?_putField (name : String) (v : Value) (fields : List (String × Value)) :
    field? name (putField name v fields) = some v := by
  induction fields with
  | nil => simp [putField, field?_cons]
  | cons entry rest ih =>
    obtain ⟨other, w⟩ := entry
    by_cases h : other = name
    · simp [putField, field?_cons, h]
    · simp [putField, field?_cons, h, ih]

theorem field?_putField_of_ne {name other : String} (h : other ≠ name) (v : Value)
    (fields : List (String × Value)) :
    field? other (putField name v fields) = field? other fields := by
  induction fields with
  | nil => exact (field?_cons ..).trans (if_neg h.symm)
  | cons entry rest ih =>
    obtain ⟨key, w⟩ := entry
    by_cases hkey : key = name
    · rw [putField, if_pos hkey, field?_cons, field?_cons, if_neg h.symm, if_neg (hkey ▸ h.symm)]
    · rw [putField, if_neg hkey, field?_cons, field?_cons, ih]

theorem mem_keys_iff {name : String} {fields : List (String × Value)} :
    name ∈ fields.map Prod.fst ↔ (field? name fields).isSome = true := by
  induction fields with
  | nil => simp [field?]
  | cons entry rest ih =>
    obtain ⟨key, v⟩ := entry
    rw [List.map_cons, List.mem_cons, ih, field?_cons]
    by_cases h : key = name
    · simp [h]
    · simp [h, Ne.symm h]

theorem mem_of_field? {name : String} {v : Value} {fields : List (String × Value)}
    (h : field? name fields = some v) : (name, v) ∈ fields := by
  induction fields with
  | nil => cases h
  | cons entry rest ih =>
    obtain ⟨other, w⟩ := entry
    rw [field?_cons] at h
    by_cases hname : other = name
    · rw [if_pos hname] at h
      rw [hname, Option.some.inj h]
      exact List.mem_cons_self
    · rw [if_neg hname] at h
      exact List.mem_cons_of_mem _ (ih h)

theorem field?_eq_some_iff {name : String} {v : Value} {fields : List (String × Value)}
    (h : (fields.map Prod.fst).Nodup) : field? name fields = some v ↔ (name, v) ∈ fields := by
  refine ⟨mem_of_field?, fun hmem => ?_⟩
  induction fields with
  | nil => cases hmem
  | cons entry rest ih =>
    obtain ⟨key, w⟩ := entry
    obtain ⟨hnot, hrest⟩ := List.nodup_cons.mp h
    rw [field?_cons]
    rcases List.mem_cons.mp hmem with hfirst | hmem
    · cases hfirst
      exact if_pos rfl
    · rw [if_neg, ih hrest hmem]
      rintro rfl
      exact hnot (List.mem_map.mpr ⟨_, hmem, rfl⟩)

theorem field?_perm {fields fields' : List (String × Value)} (h : (fields.map Prod.fst).Nodup)
    (hperm : fields.Perm fields') (name : String) : field? name fields' = field? name fields := by
  refine Option.ext fun v => ?_
  rw [field?_eq_some_iff h, field?_eq_some_iff ((hperm.map Prod.fst).nodup h), hperm.mem_iff]

theorem eq_or_mem_of_mem_putField {name : String} {v : Value} {entry : String × Value}
    {fields : List (String × Value)} (h : entry ∈ putField name v fields) :
    entry = (name, v) ∨ entry ∈ fields := by
  induction fields with
  | nil => exact .inl (List.mem_singleton.mp h)
  | cons first rest ih =>
    rw [putField] at h
    split at h
    · exact (List.mem_cons.mp h).imp_right (List.mem_cons_of_mem _)
    · rcases List.mem_cons.mp h with rfl | hrest
      · exact .inr List.mem_cons_self
      · exact (ih hrest).imp_right (List.mem_cons_of_mem _)

theorem keys_putField {name : String} {v w : Value} {fields : List (String × Value)}
    (h : field? name fields = some w) :
    (putField name v fields).map Prod.fst = fields.map Prod.fst := by
  induction fields with
  | nil => cases h
  | cons entry rest ih =>
    obtain ⟨other, u⟩ := entry
    rw [field?_cons] at h
    by_cases hname : other = name
    · simp [putField, hname]
    · rw [if_neg hname] at h
      simp [putField, hname, ih h]

theorem putField_putField (name : String) (v w : Value) (fields : List (String × Value)) :
    putField name w (putField name v fields) = putField name w fields := by
  induction fields with
  | nil => simp [putField]
  | cons entry rest ih =>
    obtain ⟨other, u⟩ := entry
    by_cases h : other = name
    · simp [putField, h]
    · simp [putField, h, ih]

theorem putField_of_field? {name : String} {v : Value} {fields : List (String × Value)}
    (h : field? name fields = some v) : putField name v fields = fields := by
  induction fields with
  | nil => cases h
  | cons entry rest ih =>
    obtain ⟨other, w⟩ := entry
    rw [field?_cons] at h
    by_cases hname : other = name
    · rw [if_pos hname] at h
      simp [putField, hname, Option.some.inj h]
    · rw [if_neg hname] at h
      simp [putField, hname, ih h]

end ExamAdmission
