import ExamAdmission.Proofs.Arithmetic.Conversions
import ExamAdmission.Proofs.Outcome
import ExamAdmission.Rounding

/-! The order of numbers of both kinds. It is that of their places, and neither a conversion to
doubles nor a sum reverses it. -/

namespace ExamAdmission

attribute [local irreducible] rangeEnd Binary64.unit

namespace Number

instance : LE Number := ⟨fun a b => a.le b = true⟩

instance : LT Number := ⟨fun a b => a ≤ b ∧ ¬ b ≤ a⟩

variable {a b c : Number} {x y : Binary64}

theorem le_iff : a ≤ b ↔ Position.leq? a.position? b.position? = true := Iff.rfl

@[simp] theorem float_le_float : float x ≤ float y ↔ x ≤ y := Iff.rfl

@[simp] theorem int_le_int {m n : ℤ} : int m ≤ int n ↔ m ≤ n := by
  have hunit : (0 : ℤ) < Binary64.unit := by exact_mod_cast Binary64.unit_pos
  simpa [le_iff, position?, Position.ofInt, Position.leq?, Position.le] using
    mul_le_mul_iff_left₀ hunit

theorem le_congr {a' b' : Number} (ha : a.position? = a'.position?)
    (hb : b.position? = b'.position?) : a ≤ b ↔ a' ≤ b' := by
  rw [le_iff, le_iff, ha, hb]

theorem not_lt_of_position_eq (h : a.position? = b.position?) : ¬ a < b := fun hlt =>
  hlt.2 ((le_congr h h.symm).mp hlt.1)

protected theorem lt_asymm (h : a < b) : ¬ b < a := fun hlt => h.2 hlt.1

theorem leq?_trans {p q r : Option Position} (h : Position.leq? p q = true)
    (h' : Position.leq? q r = true) : Position.leq? p r = true := by
  rcases p with _ | (_ | _ | _) <;> rcases q with _ | (_ | _ | _) <;>
    rcases r with _ | (_ | _ | _) <;> simp_all [Position.leq?, Position.le]
  exact Int.le_trans h h'

theorem le_trans (h : a ≤ b) (h' : b ≤ c) : a ≤ c := leq?_trans h h'

protected theorem lt_of_le_of_lt (h : a ≤ b) (h' : b < c) : a < c :=
  ⟨le_trans h h'.1, fun hge => h'.2 (le_trans hge h)⟩

protected theorem lt_of_lt_of_le (h : a < b) (h' : b ≤ c) : a < c :=
  ⟨le_trans h.1 h', fun hge => h.2 (le_trans h' hge)⟩

theorem le_iff_of_at {i j : ℤ} (ha : a.position? = some (.at i)) (hb : b.position? = some (.at j)) :
    a ≤ b ↔ i ≤ j := by
  rw [le_iff, ha, hb]
  simp [Position.leq?, Position.le]

theorem le_refl (h : a.position? ≠ none) : a ≤ a := by
  rw [le_iff]
  rcases hp : a.position? with _ | (_ | _ | _) <;> simp_all [Position.leq?, Position.le]

theorem le_refl_of_le (h : a ≤ b) : b ≤ b := by
  refine le_refl fun hn => ?_
  rw [le_iff, hn] at h
  cases ha : a.position? <;> simp [ha, Position.leq?] at h

theorem toBinary64_int {n : ℤ} : (int n).toBinary64 = .ok x ↔ Binary64.ofInt? n = some x := by
  cases h : Binary64.ofInt? n <;> simp [toBinary64, h]

theorem nearest_toBinary64 {k : ℤ} (h : a.toBinary64 = .ok x) (hk : a.position? = some (.at k)) :
    ∃ negative, Binary64.Nearest negative |(k : ℚ)| x ∧ signed negative |(k : ℚ)| = k := by
  cases a with
  | float y =>
    cases h
    rcases x with _ | (_ | _) | ⟨a, m⟩
    · simp [position?, Binary64.position?] at hk
    · simp [position?, Binary64.position?] at hk
    · simp [position?, Binary64.position?] at hk
    · obtain rfl : Binary64.signedUnits a m = k := by
        simpa [position?, Binary64.position?] using hk
      have habs : |((Binary64.signedUnits a m : ℤ) : ℚ)| = m.units := by
        cases a <;> simp [Binary64.signedUnits]
      refine ⟨a, ?_, ?_⟩
      · rw [habs]
        exact .within m (Binary64.rounds_units m)
      · cases a <;> simp [Binary64.signedUnits, signed]
  | int n =>
    obtain rfl : n * Binary64.unit = k := by
      simpa [position?, Position.ofInt] using hk
    have habs : |((n * Binary64.unit : ℤ) : ℚ)| = n.natAbs * Binary64.unit := by
      rw [Int.cast_mul, abs_mul, Int.cast_natCast, abs_of_pos Binary64.unit_pos, ← Int.cast_abs,
        Int.abs_eq_natAbs, Int.cast_natCast]
    refine ⟨decide (n < 0), ?_, Binary64.signed_abs fun _ => ?_⟩
    · rw [habs]
      exact Binary64.nearest_ofInt (toBinary64_int.mp h)
    · have hunit := Binary64.unit_pos
      have hsign : n < 0 ↔ ((n * Binary64.unit : ℤ) : ℚ) < 0 := by
        rw [Int.cast_mul, Int.cast_natCast, mul_neg_iff]
        simp [hunit, hunit.le.not_gt]
      exact decide_eq_decide.mpr hsign

theorem eq_negInfinite (h : a.toBinary64 = .ok x) (ha : a.position? = some .bottom) :
    x = .infinite true := by
  rcases a with n | _ | (_ | _) | _ <;> simp [position?, Position.ofInt, Binary64.position?] at ha
  cases h
  rfl

theorem eq_posInfinite (h : a.toBinary64 = .ok x) (ha : a.position? = some .top) :
    x = .infinite false := by
  rcases a with n | _ | (_ | _) | _ <;> simp [position?, Position.ofInt, Binary64.position?] at ha
  cases h
  rfl

theorem toBinary64_ne_nan (h : a.toBinary64 = .ok x) (ha : a.position? ≠ none) : x ≠ .nan := by
  rintro rfl
  cases a with
  | float y =>
    cases h
    exact ha rfl
  | int n =>
    obtain ⟨_, hn, _⟩ := @nearest_toBinary64 (int n) .nan (n * Binary64.unit) h rfl
    exact hn.ne_nan rfl

theorem toBinary64_mono (h : a ≤ b) (hx : a.toBinary64 = .ok x) (hy : b.toBinary64 = .ok y) :
    x ≤ y := by
  rcases ha : a.position? with _ | (_ | k | _) <;> rcases hb : b.position? with _ | (_ | l | _) <;>
    simp only [le_iff, ha, hb, Position.leq?, Position.le, decide_eq_true_eq, reduceCtorEq] at h
  case some.at.some.at =>
    obtain ⟨s, hs, hk⟩ := nearest_toBinary64 hx ha
    obtain ⟨t, ht, hl⟩ := nearest_toBinary64 hy hb
    refine hs.le ht (abs_nonneg _) (abs_nonneg _) ?_
    rw [hk, hl]
    exact_mod_cast h
  all_goals
    have hnx := toBinary64_ne_nan hx (by simp [ha])
    have hny := toBinary64_ne_nan hy (by simp [hb])
    first
    | rw [eq_negInfinite hx ha]; simpa using hny
    | rw [eq_posInfinite hy hb]; simpa using hnx

theorem isZero_iff : a.isZero = true ↔ a.position? = some (.at 0) := by
  rw [isZero, decide_eq_true_eq, Position.ofInt, Int.zero_mul]

theorem isZero_int {n : ℤ} : (int n).isZero = decide (n = 0) := by
  have hunit : Binary64.unit ≠ 0 := by exact_mod_cast Binary64.unit_pos.ne'
  rw [Bool.eq_iff_iff, isZero_iff, position?, Position.ofInt]
  simp [hunit]

theorem isZero_nan : (float .nan).isZero = false :=
  Bool.eq_false_iff.mpr fun h => by simpa [position?, Binary64.position?] using isZero_iff.mp h

theorem isZero_infinite {negative : Bool} : (float (.infinite negative)).isZero = false :=
  Bool.eq_false_iff.mpr fun h => by
    cases negative <;> simpa [position?, Binary64.position?] using isZero_iff.mp h

theorem isZero_finite {negative : Bool} {m : Magnitude} :
    (float (.finite negative m)).isZero = decide (m.units = 0) := by
  rw [Bool.eq_iff_iff, isZero_iff]
  cases negative <;> simp [position?, Binary64.position?, Binary64.signedUnits]

theorem position?_zero : (int 0).position? = some (.at 0) := by
  rw [position?, Position.ofInt, Int.zero_mul]

theorem position?_float_zero (negative : Bool) :
    (float (.zero negative)).position? = some (.at 0) := by
  cases negative <;>
    simp [position?, Binary64.position?, Binary64.zero, Binary64.signedUnits, Magnitude.zero]

theorem nonneg_cases (h : int 0 ≤ a) :
    a.position? = some .top ∨ ∃ k, 0 ≤ k ∧ a.position? = some (.at k) := by
  rw [le_iff, position?_zero] at h
  rcases hp : a.position? with _ | (_ | k | _) <;> simp_all [Position.leq?, Position.le]

theorem pos_cases (h : int 0 ≤ a) (hz : a.isZero = false) :
    a.position? = some .top ∨ ∃ k, 0 < k ∧ a.position? = some (.at k) := by
  rcases nonneg_cases h with htop | ⟨k, hk, hp⟩
  · exact .inl htop
  · refine .inr ⟨k, hk.lt_of_ne ?_, hp⟩
    rintro rfl
    rw [isZero_iff.mpr hp] at hz
    cases hz

/-- A number with a place between the ends of the line. -/
def IsFinite (a : Number) : Prop := ∃ k, a.position? = some (.at k)

theorem IsFinite.le_refl (h : a.IsFinite) : a ≤ a := by
  obtain ⟨k, hk⟩ := h
  exact Number.le_refl (by simp [hk])

theorem isFinite_float : (float x).IsFinite ↔ x.IsFinite := by
  rcases x with _ | (_ | _) | _ <;>
    simp [IsFinite, position?, Binary64.position?, Binary64.IsFinite]

theorem isFinite_int (n : ℤ) : (int n).IsFinite := ⟨_, rfl⟩

theorem IsFinite.toBinary64 (ha : a.IsFinite) (h : a.toBinary64 = .ok x) : x.IsFinite := by
  cases a with
  | float y =>
    cases h
    exact isFinite_float.mp ha
  | int n =>
    obtain ⟨m, _, rfl⟩ := Option.map_eq_some_iff.mp (toBinary64_int.mp h)
    exact ⟨_, m, rfl⟩

theorem toBinary64_zero : (int 0).toBinary64 = .ok (.zero false) := by
  rw [toBinary64_int]
  decide +kernel

theorem toBinary64_nonneg (h : int 0 ≤ a) (hx : a.toBinary64 = .ok x) : .zero false ≤ x :=
  toBinary64_mono h toBinary64_zero hx

theorem zero_le_float : int 0 ≤ float x ↔ .zero false ≤ x :=
  (le_congr (position?_zero.trans (position?_float_zero false).symm) rfl).trans float_le_float

theorem zero_le_float_zero : int 0 ≤ float (.zero false) :=
  zero_le_float.mpr (Binary64.le_refl (by simp [Binary64.zero]))

theorem float_zero_le (negative : Bool) : float (.zero negative) ≤ int 0 :=
  (le_congr ((position?_float_zero negative).trans position?_zero.symm) rfl).mpr
    (int_le_int.mpr le_rfl)

end Number

namespace Value

variable {v w u : Value} {a : Number}

/-- Two numbers in their order. -/
def AtMost (v w : Value) : Prop := ∃ a b, v.number? = some a ∧ w.number? = some b ∧ a ≤ b

/-- A number that is neither infinite nor no number at all. -/
def IsFinite (v : Value) : Prop := ∃ a, v.number? = some a ∧ a.IsFinite

theorem isFinite_int (n : ℤ) : (int n).IsFinite := ⟨_, rfl, Number.isFinite_int n⟩

theorem AtMost.trans (h : v.AtMost w) (h' : w.AtMost u) : v.AtMost u := by
  obtain ⟨a, b, ha, hb, hab⟩ := h
  obtain ⟨b', c, hb', hc, hbc⟩ := h'
  cases hb.symm.trans hb'
  exact ⟨a, c, ha, hc, Number.le_trans hab hbc⟩

theorem AtMost.number_le {b : Number} (h : v.AtMost w) (ha : v.number? = some a)
    (hb : w.number? = some b) : a ≤ b := by
  obtain ⟨a', b', ha', hb', hle⟩ := h
  cases ha.symm.trans ha'
  cases hb.symm.trans hb'
  exact hle

theorem AtMost.refl (h : v.IsFinite) : v.AtMost v := by
  obtain ⟨a, ha, hf⟩ := h
  exact ⟨a, a, ha, ha, hf.le_refl⟩

@[simp] theorem number?_toValue (a : Number) : a.toValue.number? = some a := by
  cases a <;> rfl

theorem toBinary64_of_number? (h : v.number? = some a) : v.toBinary64 = a.toBinary64 := by
  have hn : v.number = .ok a := by rw [number, h]
  have ht : ∀ s, v ≠ .text s := by
    rintro s rfl
    cases h
  rw [Value.toBinary64.eq_2 v ht, hn]
  rfl

theorem holds_of_number? (h : v.number? = some a) : v.holds = !a.isZero := by
  cases v with
  | bool b =>
    cases h
    cases b <;> simp [holds, Number.isZero_int]
  | int n =>
    cases h
    rw [Number.isZero_int, holds]
    rfl
  | float x =>
    cases h
    rcases x with _ | _ | ⟨c, m⟩
    · rw [Number.isZero_nan]
      rfl
    · rw [Number.isZero_infinite]
      rfl
    · rw [Number.isZero_finite, holds]
      rfl
  | _ => simp [number?] at h

theorem number?_orZero (h : v.number? = some a) :
    ∃ b, v.orZero.number? = some b ∧ b.position? = a.position? := by
  unfold orZero
  rw [holds_of_number? h]
  cases hz : a.isZero with
  | true => exact ⟨.int 0, rfl, Number.isZero_iff.mp hz ▸ Number.isZero_iff.mp Number.isZero_int⟩
  | false => exact ⟨a, h, rfl⟩

end Value

end ExamAdmission
