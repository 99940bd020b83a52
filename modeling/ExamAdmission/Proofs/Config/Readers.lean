import ExamAdmission.Proofs.Config.Ranges
import ExamAdmission.Proofs.Text.LowerCase

/-! What the readers of single fields take. Everything else they refuse, and for another reason than
that it is missing or unexpected. -/

namespace ExamAdmission

attribute [local irreducible] rangeEnd Binary64.unit

/-- What an entry of an error list complains of. -/
inductive Cause where
  | missing
  | unexpected
  | refused
deriving DecidableEq

/-- The cause as it shows in the code of an entry. -/
def IssueKind.cause (kind : IssueKind) : Cause :=
  if kind.code = "missing" then .missing
  else if kind.code = "extra_forbidden" then .unexpected
  else .refused

/-- A reader takes just the values with a property. -/
structure Reads {α : Type} (read : Value → Except IssueKind α) (p : Value → Prop) : Prop where
  ok_iff : ∀ v, (∃ a, read v = .ok a) ↔ p v
  refused : ∀ v kind, read v = .error kind → kind.cause = .refused

theorem Reads.of_cases {α : Type} {read : Value → Except IssueKind α} {p : Value → Prop}
    (h : ∀ v, (p v ∧ ∃ a, read v = .ok a) ∨
      ¬ p v ∧ ∃ kind, read v = .error kind ∧ kind.cause = .refused) : Reads read p where
  ok_iff v := by
    rcases h v with ⟨hp, hok⟩ | ⟨hp, kind, hkind, -⟩
    · exact iff_of_true hok hp
    · exact iff_of_false (by simp [hkind]) hp
  refused v kind hkind := by
    rcases h v with ⟨-, a, ha⟩ | ⟨-, other, hother, hcause⟩
    · cases ha.symm.trans hkind
    · cases hkind.symm.trans hother
      exact hcause

abbrev Reads.decidable {α : Type} {read : Value → Except IssueKind α} {p : Value → Prop}
    (h : Reads read p) : DecidablePred p := fun v =>
  decidable_of_iff ((read v).isOk = true) <| by
    rw [← h.ok_iff]
    cases read v <;> simp [Except.isOk, Except.toBool]

namespace Value

/-- A text, and the very one if only one is allowed. -/
def IsTypeName (only : Option String) (v : Value) : Prop :=
  ∃ s, v = .text s ∧ ∀ name ∈ only, s = name

def IsNonEmptyText (v : Value) : Prop := ∃ s, v = .text s ∧ s ≠ ""

def IsErrorOrPass (v : Value) : Prop := v = .text "error" ∨ v = .text "pass"

/-- What can be converted to a number from 0 to 100. -/
def IsPercent (v : Value) : Prop := ∃ x, Field.number v = .ok x ∧ x.IsPercent

def IsRoundingName (v : Value) : Prop := ∃ s, v = .text s ∧ ∃ t : RoundingType, t.name = lowerCase s

/-- What can be converted to a whole number that is not negative. -/
def IsDecimals (v : Value) : Prop := ∃ n, Field.integer v = .ok n ∧ 0 ≤ n

end Value

namespace Field

theorem reads_typeName (only : Option String) : Reads
    (match only with
      | none => text
      | some name => exactly name) (Value.IsTypeName only) := .of_cases fun v => by
  cases v with
  | text s =>
    cases only with
    | none => exact .inl ⟨⟨s, rfl, nofun⟩, s, rfl⟩
    | some name =>
      by_cases h : s = name
      · exact .inl ⟨⟨s, rfl, by simp [h]⟩, s, if_pos h⟩
      · exact .inr ⟨by simp [Value.IsTypeName, h], _, if_neg h, rfl⟩
  | _ => exact .inr ⟨nofun, by cases only <;> exact ⟨_, rfl, rfl⟩⟩

theorem reads_nonEmptyText : Reads nonEmptyText Value.IsNonEmptyText := .of_cases fun v => by
  cases v with
  | text s =>
    by_cases h : s = ""
    · exact .inr ⟨by simp [Value.IsNonEmptyText, h], _, if_pos h, rfl⟩
    · exact .inl ⟨⟨s, rfl, h⟩, s, if_neg h⟩
  | _ => exact .inr ⟨nofun, _, rfl, rfl⟩

theorem reads_whenNoAssignments : Reads whenNoAssignments Value.IsErrorOrPass :=
  .of_cases fun v => by
    cases v with
    | text s =>
      by_cases herror : s = "error"
      · exact .inl ⟨.inl (congrArg _ herror), _, if_pos herror⟩
      · by_cases hpass : s = "pass"
        · exact .inl ⟨.inr (congrArg _ hpass), _, (if_neg herror).trans (if_pos hpass)⟩
        · exact .inr ⟨by simp [Value.IsErrorOrPass, herror, hpass], _,
            (if_neg herror).trans (if_neg hpass), rfl⟩
    | _ => exact .inr ⟨nofun, _, rfl, rfl⟩

theorem refused_number {v : Value} {kind : IssueKind} (h : number v = .error kind) :
    kind.cause = .refused := by
  cases v with
  | bool b => cases h
  | float x => cases h
  | int n =>
    simp only [number] at h
    cases hn : Binary64.ofInt? n with
    | none =>
      rw [hn] at h
      cases h
      rfl
    | some x =>
      rw [hn] at h
      cases h
  | text s =>
    simp only [number] at h
    split at h <;> cases h
    rfl
  | _ =>
    cases h
    rfl

theorem reads_percent : Reads percent Value.IsPercent where
  ok_iff v := by simp only [percent_eq_ok, Value.IsPercent]
  refused v kind h := by
    rcases bind_eq_error.mp h with hnumber | ⟨x, -, hrange⟩
    · exact refused_number hnumber
    · split at hrange
      · cases hrange
        rfl
      · split at hrange <;> cases hrange
        rfl

theorem lowerCase_name (t : RoundingType) : lowerCase t.name = t.name := by
  cases t <;> exact lowerCase_of_between (by decide)

theorem ofName?_eq_some {s : String} {t : RoundingType} :
    RoundingType.ofName? s = some t ↔ t.name = s := by
  constructor
  · intro h
    rw [RoundingType.ofName?] at h
    simpa using List.find?_some h
  · rintro rfl
    cases t <;> decide

theorem reads_roundingType : Reads roundingType Value.IsRoundingName := .of_cases fun v => by
  cases v with
  | text s =>
    cases h : RoundingType.ofName? (lowerCase s) with
    | some t => exact .inl ⟨⟨s, rfl, t, ofName?_eq_some.mp h⟩, t, by simp only [roundingType, h]⟩
    | none =>
      refine .inr ⟨?_, _, by simp only [roundingType, h]; rfl, rfl⟩
      rintro ⟨_, ⟨⟩, t, ht⟩
      cases h.symm.trans (ofName?_eq_some.mpr ht)
  | _ => exact .inr ⟨nofun, _, rfl, rfl⟩

theorem refused_integer {v : Value} {kind : IssueKind} (h : integer v = .error kind) :
    kind.cause = .refused := by
  cases v with
  | bool b => cases h
  | int n => cases h
  | float x =>
    rcases x with _ | _ | ⟨a, m⟩
    · cases h
      rfl
    · cases h
      rfl
    · simp only [integer, wholeOfFloat] at h
      split at h
      · cases h
        rfl
      · split at h <;> cases h
        rfl
  | text s =>
    simp only [integer] at h
    split at h <;> cases h
    all_goals rfl
  | _ =>
    cases h
    rfl

theorem reads_natural : Reads natural Value.IsDecimals where
  ok_iff v := by
    unfold natural
    simp only [bind_eq_ok, Value.IsDecimals]
    constructor
    · rintro ⟨a, n, hn, ha⟩
      split at ha
      · cases ha
      · exact ⟨n, hn, by omega⟩
    · rintro ⟨n, hn, h0⟩
      exact ⟨n.toNat, n, hn, if_neg (by omega)⟩
  refused v kind h := by
    rcases bind_eq_error.mp h with hinteger | ⟨n, -, hrange⟩
    · exact refused_integer hinteger
    · split at hrange <;> cases hrange
      rfl

end Field

instance (only : Option String) : DecidablePred (Value.IsTypeName only) :=
  (Field.reads_typeName only).decidable

instance : DecidablePred Value.IsNonEmptyText := Field.reads_nonEmptyText.decidable

instance : DecidablePred Value.IsErrorOrPass := Field.reads_whenNoAssignments.decidable

instance : DecidablePred Value.IsPercent := Field.reads_percent.decidable

instance : DecidablePred Value.IsRoundingName := Field.reads_roundingType.decidable

instance : DecidablePred Value.IsDecimals := Field.reads_natural.decidable

end ExamAdmission
