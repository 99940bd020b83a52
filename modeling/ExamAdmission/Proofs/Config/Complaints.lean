import ExamAdmission.Proofs.Config.Readers
import ExamAdmission.Proofs.Document.Fields

/-! What is to complain of in an object: the fields that it should have are looked at in their order,
those of a rounding policy in its place, and whatever is left over comes last. -/

namespace ExamAdmission

attribute [local irreducible] rangeEnd Binary64.unit

/-- What an entry of an error list tells: a place, a cause and the offending value. -/
structure Complaint where
  place : List String
  cause : Cause
  input : Value

def Complaint.within (name : String) (c : Complaint) : Complaint :=
  { c with place := name :: c.place }

def Issue.complaint (issue : Issue) : Complaint := ⟨issue.place, issue.kind.cause, issue.input⟩

/-- A field, the values that it may have, and the complaints of any other. -/
structure FieldCheck where
  name : String
  optional : Bool
  Accepts : Value → Prop
  complaints : Value → List Complaint
  complaints_eq_nil : ∀ v, complaints v = [] ↔ Accepts v

namespace FieldCheck

variable {check : FieldCheck} {fields : List (String × Value)}

def single (name : String) (optional : Bool) (p : Value → Prop) [DecidablePred p] : FieldCheck where
  name := name
  optional := optional
  Accepts := p
  complaints v := if p v then [] else [⟨[], .refused, v⟩]
  complaints_eq_nil v := by by_cases h : p v <;> simp [h]

def AcceptsIn (check : FieldCheck) (fields : List (String × Value)) : Prop :=
  match field? check.name fields with
  | some v => check.Accepts v
  | none => check.optional = true

/-- The input of a missing field is the whole object. -/
def complaintsIn (check : FieldCheck) (fields : List (String × Value)) : List Complaint :=
  match field? check.name fields with
  | some v => (check.complaints v).map (Complaint.within check.name)
  | none => if check.optional then [] else [⟨[check.name], .missing, .object fields⟩]

theorem complaintsIn_eq_nil : check.complaintsIn fields = [] ↔ check.AcceptsIn fields := by
  unfold complaintsIn AcceptsIn
  cases field? check.name fields with
  | some v => simp [check.complaints_eq_nil]
  | none => simp

end FieldCheck

def AcceptsFields (checks : List FieldCheck) (fields : List (String × Value)) : Prop :=
  (∀ check ∈ checks, check.AcceptsIn fields) ∧
    ∀ entry ∈ fields, entry.1 ∈ checks.map FieldCheck.name

def unexpectedFields (known : List String) (fields : List (String × Value)) : List Complaint :=
  (fields.filter fun (name, _) => !known.contains name).map fun (name, v) =>
    ⟨[name], .unexpected, v⟩

/-- The complaints about an object: the known fields in their order, then the others in theirs. -/
def complaintsOf (checks : List FieldCheck) (fields : List (String × Value)) : List Complaint :=
  checks.flatMap (FieldCheck.complaintsIn · fields) ++
    unexpectedFields (checks.map FieldCheck.name) fields

theorem unexpectedFields_eq_nil {known : List String} {fields : List (String × Value)} :
    unexpectedFields known fields = [] ↔ ∀ entry ∈ fields, entry.1 ∈ known := by
  simp [unexpectedFields, List.filter_eq_nil_iff]

theorem complaintsOf_eq_nil {checks : List FieldCheck} {fields : List (String × Value)} :
    complaintsOf checks fields = [] ↔ AcceptsFields checks fields := by
  rw [complaintsOf, List.append_eq_nil_iff, List.flatMap_eq_nil_iff, unexpectedFields_eq_nil,
    AcceptsFields]
  simp only [FieldCheck.complaintsIn_eq_nil]

/-- An object has no key twice. -/
def Value.KeysOnce : Value → Prop
  | .object fields => (fields.map Prod.fst).Nodup
  | _ => True

theorem FieldCheck.head_place {check : FieldCheck} {fields : List (String × Value)} {c : Complaint}
    (h : c ∈ check.complaintsIn fields) : c.place.head? = some check.name := by
  unfold complaintsIn at h
  split at h
  · obtain ⟨c', -, rfl⟩ := List.mem_map.mp h
    rfl
  · split at h
    · cases h
    · rw [List.mem_singleton.mp h]
      rfl

@[simp] theorem FieldCheck.nodup_complaints_single (name : String) (optional : Bool)
    (p : Value → Prop) [DecidablePred p] (v : Value) :
    (((single name optional p).complaints v).map Complaint.place).Nodup := by
  by_cases h : p v <;> simp [single, h]

theorem FieldCheck.nodup_complaintsIn {check : FieldCheck} {fields : List (String × Value)}
    (h : ∀ v, field? check.name fields = some v →
      ((check.complaints v).map Complaint.place).Nodup) :
    ((check.complaintsIn fields).map Complaint.place).Nodup := by
  unfold complaintsIn
  cases hv : field? check.name fields with
  | some v =>
    have hplaces : ((check.complaints v).map (Complaint.within check.name)).map Complaint.place =
        ((check.complaints v).map Complaint.place).map (check.name :: ·) := by
      rw [List.map_map, List.map_map]
      rfl
    rw [hplaces]
    exact (h v hv).map List.cons_injective
  | none => cases check.optional <;> simp

theorem exists_head_unexpected {known : List String} {fields : List (String × Value)}
    {c : Complaint} (h : c ∈ unexpectedFields known fields) :
    ∃ key, key ∉ known ∧ c.place.head? = some key := by
  obtain ⟨⟨key, v⟩, hentry, rfl⟩ := List.mem_map.mp h
  exact ⟨key, by simpa using (List.mem_filter.mp hentry).2, rfl⟩

theorem nodup_unexpectedFields {known : List String} {fields : List (String × Value)}
    (h : (Value.object fields).KeysOnce) :
    ((unexpectedFields known fields).map Complaint.place).Nodup := by
  have hplaces : (unexpectedFields known fields).map Complaint.place =
      ((fields.filter fun (name, _) => !known.contains name).map Prod.fst).map ([·]) := by
    rw [unexpectedFields, List.map_map, List.map_map]
    rfl
  rw [hplaces]
  exact (h.sublist (List.filter_sublist.map Prod.fst)).map List.singleton_injective

theorem nodup_complaintsOf {checks : List FieldCheck} {fields : List (String × Value)}
    (hnames : (checks.map FieldCheck.name).Nodup) (hfields : (Value.object fields).KeysOnce)
    (h : ∀ check ∈ checks, ∀ v, field? check.name fields = some v →
      ((check.complaints v).map Complaint.place).Nodup) :
    ((complaintsOf checks fields).map Complaint.place).Nodup := by
  rw [complaintsOf, List.map_append, List.map_flatMap, List.nodup_append']
  refine ⟨List.nodup_flatMap.mpr ⟨fun check hcheck => ?_, ?_⟩, nodup_unexpectedFields hfields, ?_⟩
  · exact check.nodup_complaintsIn (h check hcheck)
  · -- all places of a field begin with its name
    refine (List.pairwise_map.mp hnames).imp fun {check other} hne place hplace hplace' => ?_
    obtain ⟨c, hc, rfl⟩ := List.mem_map.mp hplace
    obtain ⟨c', hc', hsame⟩ := List.mem_map.mp hplace'
    have hhead := FieldCheck.head_place hc'
    rw [hsame, FieldCheck.head_place hc] at hhead
    exact hne (Option.some.inj hhead)
  · intro place hplace hplace'
    obtain ⟨check, hcheck, hmem⟩ := List.mem_flatMap.mp hplace
    obtain ⟨c, hc, rfl⟩ := List.mem_map.mp hmem
    obtain ⟨c', hc', hsame⟩ := List.mem_map.mp hplace'
    obtain ⟨key, hkey, hhead⟩ := exists_head_unexpected hc'
    rw [hsame, FieldCheck.head_place hc] at hhead
    exact hkey (Option.some.inj hhead ▸ List.mem_map_of_mem hcheck)

def policyChecks : List FieldCheck :=
  [.single "type" false Value.IsRoundingName, .single "decimals" true Value.IsDecimals]

def Value.IsPolicy (v : Value) : Prop :=
  ∃ fields, v = .object fields ∧ AcceptsFields policyChecks fields

def policyComplaints : Value → List Complaint
  | .object fields => complaintsOf policyChecks fields
  | v => [⟨[], .refused, v⟩]

/-- A field with a rounding policy, which complains for each of its own fields. -/
def FieldCheck.policy (name : String) : FieldCheck where
  name := name
  optional := false
  Accepts := Value.IsPolicy
  complaints := policyComplaints
  complaints_eq_nil v := by
    cases v <;> simp [policyComplaints, Value.IsPolicy, complaintsOf_eq_nil]

theorem nodup_policyComplaints {v : Value} (h : v.KeysOnce) :
    ((policyComplaints v).map Complaint.place).Nodup := by
  cases v with
  | object fields => exact nodup_complaintsOf (by decide) h (by simp [policyChecks])
  | _ => simp [policyComplaints]

namespace ConfigClass

/-- The only type of a class that has one of its own. -/
def ownType? : ConfigClass → Option String
  | .base => none
  | .share => some shareType
  | .overall => some overallType

def termChecks : ConfigClass → List FieldCheck
  | .base => []
  | .share =>
    [.single "passed_assignments_percent" false Value.IsPercent,
     .policy "passed_assignments_rounding", .single "required_percent" false Value.IsPercent,
     .policy "achieved_percent_rounding"]
  | .overall =>
    [.single "required_percent" false Value.IsPercent, .policy "achieved_percent_rounding"]

def typeCheck (which : ConfigClass) : FieldCheck :=
  .single "type" false (Value.IsTypeName which.ownType?)

/-- The fields of a class in the order in which they are read. -/
def checks (which : ConfigClass) : List FieldCheck :=
  [which.typeCheck, .single "assignment_type" false Value.IsNonEmptyText,
   .single "when_no_assignments" true Value.IsErrorOrPass] ++ which.termChecks

theorem nodup_complaints {v : Value} (h : v.KeysOnce) (which : ConfigClass) :
    ∀ check ∈ which.checks, ((check.complaints v).map Complaint.place).Nodup := by
  have hpolicy : ∀ name, (((FieldCheck.policy name).complaints v).map Complaint.place).Nodup :=
    fun _ => nodup_policyComplaints h
  cases which <;> simp [checks, termChecks, typeCheck, hpolicy]

theorem nodup_complaintsOf_checks {fields : List (String × Value)} (which : ConfigClass)
    (h : (Value.object fields).KeysOnce) (hinner : ∀ entry ∈ fields, entry.2.KeysOnce) :
    ((complaintsOf which.checks fields).map Complaint.place).Nodup := by
  refine nodup_complaintsOf ?_ h fun check hcheck v hv =>
    nodup_complaints (hinner _ (mem_of_field? hv)) which check hcheck
  cases which <;> decide

end ConfigClass

end ExamAdmission
