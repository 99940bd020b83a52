import ExamAdmission.Document.Value
import ExamAdmission.Proofs.Document.Sums
import ExamAdmission.Rule.Check

/-! Equal points have equal percents. Their kind makes no difference, nor does the sign of zero, and
what counts as zero may as well be missing. -/

namespace ExamAdmission

attribute [local irreducible] rangeEnd Binary64.unit

namespace Binary64

theorem ofInt?_of_position? {n : ℤ} {x : Binary64} (hn : n ≠ 0)
    (hx : x.position? = some (.at (n * unit))) : ofInt? n = some x := by
  obtain ⟨negative, m, rfl, hm⟩ := exists_of_position? hx
  have hunit : (0 : ℤ) < unit := by exact_mod_cast unit_pos
  have hunits : m.units = n.natAbs * unit := by
    have habs := congrArg Int.natAbs hm
    rw [Int.natAbs_mul, Int.natAbs_natCast] at habs
    rw [← habs]
    cases negative <;> simp [signedUnits]
  have hsign : decide (n < 0) = negative := by
    cases negative with
    | true =>
      have hneg : n * (unit : ℤ) ≤ 0 := by
        rw [← hm]
        simp [signedUnits]
      exact decide_eq_true (lt_of_le_of_ne (nonpos_of_mul_nonpos_left hneg hunit) hn)
    | false =>
      have hpos : 0 ≤ n * (unit : ℤ) := by
        rw [← hm]
        simp [signedUnits]
      exact decide_eq_false (Int.not_lt.mpr (nonneg_of_mul_nonneg_left hpos hunit))
  rw [ofInt?_of_units hunits, hsign]

theorem eq_of_position? {x y : Binary64} (h : x.position? = y.position?)
    (hz : x.position? ≠ some (.at 0)) : x = y := by
  rcases x with _ | (_ | _) | ⟨a, m⟩ <;> rcases y with _ | (_ | _) | ⟨b, n⟩ <;>
    simp [position?] at h hz ⊢
  rcases eq_or_zero_of_units h with he | ⟨he, -⟩
  · exact finite.inj he
  · obtain ⟨-, hzero⟩ := finite.inj he
    rw [hzero] at hz
    cases a <;> simp [signedUnits, Magnitude.zero] at hz

end Binary64

theorem Number.toBinary64_congr {a b : Number} (h : a.position? = b.position?)
    (hz : a.isZero = false) : a.toBinary64 = b.toBinary64 := by
  have hne : a.position? ≠ some (.at 0) := fun hzero => by
    rw [isZero_iff.mpr hzero] at hz
    cases hz
  have hint : ∀ (n : ℤ) (x : Binary64), (int n).position? ≠ some (.at 0) →
      (int n).position? = (float x).position? → (int n).toBinary64 = .ok x := by
    intro n x hn hx
    have hn0 : n ≠ 0 := by
      rintro rfl
      exact hn position?_zero
    exact toBinary64_int.mpr (Binary64.ofInt?_of_position? hn0 hx.symm)
  cases a with
  | int m =>
    cases b with
    | int n =>
      have hunit : (Binary64.unit : ℤ) ≠ 0 := by exact_mod_cast Binary64.unit_pos.ne'
      have hmn : m * (Binary64.unit : ℤ) = n * Binary64.unit := by
        simpa [position?, Position.ofInt] using h
      rw [mul_right_cancel₀ hunit hmn]
    | float y => exact hint m y hne h
  | float x =>
    cases b with
    | int n => exact (hint n x (h ▸ hne) h.symm).symm
    | float y => rw [Binary64.eq_of_position? h hne]

namespace Value

variable {v w : Value}

theorem toBinary64_orZero_congr {a b : Number} (hv : v.number? = some a) (hw : w.number? = some b)
    (h : a.position? = b.position?) : v.orZero.toBinary64 = w.orZero.toBinary64 := by
  have hzero : a.isZero = b.isZero := by rw [Number.isZero, Number.isZero, h]
  unfold orZero
  rw [holds_of_number? hv, holds_of_number? hw, ← hzero]
  cases hz : a.isZero with
  | true => rfl
  | false =>
    show v.toBinary64 = w.toBinary64
    rw [toBinary64_of_number? hv, toBinary64_of_number? hw, Number.toBinary64_congr h hz]

theorem key?_cases {key : Key} (h : v.key? = some key) : (v = .null ∧ key = .null) ∨
    (∃ s, v = .text s ∧ key = .text s) ∨ ∃ a, v.number? = some a ∧
      ((∃ p, a.position? = some p ∧ key = .number p) ∨ a.position? = none ∧ key = .nan) := by
  cases v with
  | null => exact .inl ⟨rfl, (Option.some.inj h).symm⟩
  | text s => exact .inr (.inl ⟨s, rfl, (Option.some.inj h).symm⟩)
  | bool b => exact .inr (.inr ⟨_, rfl, .inl ⟨_, rfl, (Option.some.inj h).symm⟩⟩)
  | int n => exact .inr (.inr ⟨_, rfl, .inl ⟨_, rfl, (Option.some.inj h).symm⟩⟩)
  | float x =>
    refine .inr (.inr ⟨_, rfl, ?_⟩)
    rw [key?, Option.some.injEq, Key.ofBinary64] at h
    cases hx : x.position? with
    | some p =>
      rw [hx] at h
      exact .inl ⟨p, hx, h.symm⟩
    | none =>
      rw [hx] at h
      exact .inr ⟨hx, h.symm⟩
  | list items => cases h
  | object fields => cases h

theorem toBinary64_orZero_of_key? {key : Key} (hv : v.key? = some key) (hw : w.key? = some key) :
    v.orZero.toBinary64 = w.orZero.toBinary64 := by
  rcases key?_cases hv with ⟨rfl, rfl⟩ | ⟨s, rfl, rfl⟩ | ⟨a, ha, ⟨p, hp, rfl⟩ | ⟨hp, rfl⟩⟩ <;>
    rcases key?_cases hw with ⟨rfl, hk⟩ | ⟨t, rfl, hk⟩ | ⟨b, hb, ⟨q, hq, hk⟩ | ⟨hq, hk⟩⟩ <;>
    cases hk
  · rfl
  · rfl
  · exact toBinary64_orZero_congr ha hb (hp.trans hq.symm)
  · exact toBinary64_orZero_congr ha hb (hp.trans hq.symm)

theorem same_cases (h : v.same w = true) :
    (∃ key, v.key? = some key ∧ w.key? = some key) ∨
      v.key? = none ∧ w.key? = none ∧ v.holds = w.holds := by
  cases v with
  | list items =>
    cases w with
    | list others => cases items <;> cases others <;> simp_all [same, sameItems, holds, key?]
    | _ => simp [same, key?] at h
  | object fields =>
    cases w with
    | object others => cases fields <;> cases others <;> simp_all [same, sameFields, holds, key?]
    | _ => simp [same, key?] at h
  | _ =>
    simp only [same] at h
    split at h
    · rename_i key other hv hw
      exact .inl ⟨key, hv, hw.trans (congrArg some (of_decide_eq_true h).symm)⟩
    · cases h

theorem number?_of_same {b : Number} (h : v.same w = true) (hw : w.number? = some b) :
    ∃ a, v.number? = some a ∧ a.position? = b.position? := by
  rcases same_cases h with ⟨key, hvkey, hwkey⟩ | ⟨-, hwkey, -⟩
  · rcases key?_cases hwkey with ⟨rfl, -⟩ | ⟨s, rfl, -⟩ | ⟨b', hb', hplace⟩
    · cases hw
    · cases hw
    cases hw.symm.trans hb'
    rcases key?_cases hvkey with ⟨-, rfl⟩ | ⟨s, -, rfl⟩ | ⟨a, ha, hplace'⟩
    · rcases hplace with ⟨_, -, ⟨⟩⟩ | ⟨-, ⟨⟩⟩
    · rcases hplace with ⟨_, -, ⟨⟩⟩ | ⟨-, ⟨⟩⟩
    refine ⟨a, ha, ?_⟩
    rcases hplace with ⟨p, hp, rfl⟩ | ⟨hp, rfl⟩ <;>
      rcases hplace' with ⟨q, hq, hk⟩ | ⟨hq, hk⟩ <;> cases hk <;> exact hq.trans hp.symm
  · cases w with
    | list items => cases hw
    | object fields => cases hw
    | _ => cases hwkey

/-- Values that are the same are calculated with as the same number, if with any. -/
theorem toBinary64_orZero_of_same (h : v.same w = true) :
    v.orZero.toBinary64 = w.orZero.toBinary64 := by
  have hnone : ∀ u : Value, u.key? = none → u.toBinary64 = .error .wrongKind := by
    intro u hu
    cases u <;> first | rfl | cases hu
  rcases same_cases h with ⟨key, hv, hw⟩ | ⟨hv, hw, hholds⟩
  · exact toBinary64_orZero_of_key? hv hw
  · unfold orZero
    rw [hholds]
    split
    · rw [hnone v hv, hnone w hw]
    · rfl

theorem orZero_orZeroPoints (v : Value) : v.orZeroPoints.orZero = v.orZero := by
  unfold orZeroPoints
  cases hv : v.holds with
  | true => rfl
  | false =>
    rw [orZero, orZero, hv]
    rfl

end Value

theorem percentOf_congr {v w required : Value} {p : Binary64}
    (h : v.orZero.toBinary64 = w.orZero.toBinary64) :
    percentOf v required = .ok p ↔ percentOf w required = .ok p := by
  unfold percentOf Value.toDecimal
  rw [h]
  split_ifs
  · exact iff_of_false (fun e => nomatch e) fun e => nomatch e
  · exact Iff.rfl

end ExamAdmission
