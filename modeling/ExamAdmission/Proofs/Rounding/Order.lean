import ExamAdmission.Proofs.Arithmetic.ReadingBack
import ExamAdmission.Proofs.Document.NumberOrder
import ExamAdmission.Rounding

/-! Rounders and percents keep the order of the numbers that they are made from. -/

namespace ExamAdmission

attribute [local irreducible] rangeEnd Binary64.unit

theorem Decimal.toBinary64_zero (negative : Bool) (e : ℤ) :
    toBinary64 (finite negative 0 e) = .zero negative := by
  simp [toBinary64, Binary64.ofDecimal]

theorem Decimal.ofBinary64_zero (negative : Bool) :
    ofBinary64 (.zero negative) = finite negative 0 0 := by
  simp [ofBinary64, Binary64.zero, Magnitude.zero]

namespace Rounder

variable {r : Rounder} {x y x' y' : Binary64}

theorem round_mono (h : x ≤ y) (hx : r.round x = .ok x') (hy : r.round y = .ok y') : x' ≤ y' := by
  cases r with
  | unchanged =>
    cases hx
    cases hy
    exact h
  | toPlaces bearing places =>
    obtain ⟨d, hd, ⟨⟩⟩ := bind_eq_ok.mp hx
    obtain ⟨d', hd', ⟨⟩⟩ := bind_eq_ok.mp hy
    exact Decimal.toBinary64_mono (Decimal.toPlaces_mono (Decimal.ofBinary64_mono h)
      (liftArithmetic_eq_ok.mp hd) (liftArithmetic_eq_ok.mp hd'))

theorem round_zero (r : Rounder) (negative : Bool) :
    r.round (.zero negative) = .ok (.zero negative) := by
  cases r with
  | unchanged => rfl
  | toPlaces bearing places =>
    simp only [round, Decimal.ofBinary64_zero, Decimal.toPlaces, if_true, liftArithmetic]
    exact congrArg Except.ok (Decimal.toBinary64_zero negative _)

theorem round_nonneg (h : .zero false ≤ x) (hx : r.round x = .ok x') : .zero false ≤ x' :=
  round_mono h (r.round_zero false) hx

end Rounder

theorem fractionOfPercent_nonneg {p q : Binary64} (h : .zero false ≤ p)
    (hq : fractionOfPercent p = .ok q) : .zero false ≤ q := by
  obtain ⟨d, hd, ⟨⟩⟩ := bind_eq_ok.mp hq
  have hp := Decimal.ofBinary64_mono h
  rw [Decimal.ofBinary64_zero] at hp
  have hle := (Decimal.scales_div 0 (by decide : 0 < 100)).nonneg (by norm_num) hp
    (liftArithmetic_eq_ok.mp hd)
  simpa [Decimal.toBinary64_zero] using Decimal.toBinary64_mono hle

theorem fractionOfPercent_mono {p p' q q' : Binary64} (h : p ≤ p')
    (hq : fractionOfPercent p = .ok q) (hq' : fractionOfPercent p' = .ok q') : q ≤ q' := by
  obtain ⟨d, hd, ⟨⟩⟩ := bind_eq_ok.mp hq
  obtain ⟨d', hd', ⟨⟩⟩ := bind_eq_ok.mp hq'
  exact Decimal.toBinary64_mono ((Decimal.scales_div 0 (by decide : 0 < 100)).mono (by norm_num)
    (Decimal.ofBinary64_mono h) (liftArithmetic_eq_ok.mp hd) (liftArithmetic_eq_ok.mp hd'))

theorem shareOfCount_nonneg {n : ℕ} {p q : Binary64} (h : .zero false ≤ p)
    (hq : shareOfCount n p = .ok q) : .zero false ≤ q := by
  obtain ⟨d, hd, ⟨⟩⟩ := bind_eq_ok.mp hq
  have hp := Decimal.ofBinary64_mono h
  rw [Decimal.ofBinary64_zero] at hp
  have hle := (Decimal.scales_mul_count n).nonneg n.cast_nonneg hp (liftArithmetic_eq_ok.mp hd)
  simpa [Decimal.toBinary64_zero] using Decimal.toBinary64_mono hle

theorem shareOfCount_mono {n : ℕ} {p p' q q' : Binary64} (h : p ≤ p')
    (hq : shareOfCount n p = .ok q) (hq' : shareOfCount n p' = .ok q') : q ≤ q' := by
  obtain ⟨d, hd, ⟨⟩⟩ := bind_eq_ok.mp hq
  obtain ⟨d', hd', ⟨⟩⟩ := bind_eq_ok.mp hq'
  exact Decimal.toBinary64_mono ((Decimal.scales_mul_count n).mono n.cast_nonneg
    (Decimal.ofBinary64_mono h) (liftArithmetic_eq_ok.mp hd) (liftArithmetic_eq_ok.mp hd'))

theorem Number.units_pos_of_ne_zero {a : Number} {negative : Bool} {m : Magnitude}
    (hz : a.isZero = false) (hx : a.toBinary64 = .ok (.finite negative m)) : 0 < m.units := by
  rcases hp : a.position? with _ | (_ | k | _)
  · cases a with
    | int n => cases hp
    | float x =>
      cases hx
      simp [position?, Binary64.position?] at hp
  · cases eq_negInfinite hx hp
  · have hk : k ≠ 0 := by
      rintro rfl
      rw [isZero_iff.mpr hp] at hz
      cases hz
    obtain ⟨s, hn, -⟩ := nearest_toBinary64 hx hp
    cases hn with
    | within m hm =>
      have hone : FloatFormat.units.Rounds 1 1 := by
        simpa using Binary64.rounds_units ⟨1, by decide +kernel, 1, 0, by decide, by decide⟩
      have hle := hone.mono hm (by exact_mod_cast Int.one_le_abs hk)
      exact_mod_cast lt_of_lt_of_le one_pos hle
  · cases eq_posInfinite hx hp

theorem Number.toBinary64_of_pos {a : Number} {x : Binary64} (h : int 0 ≤ a)
    (hz : a.isZero = false) (hx : a.toBinary64 = .ok x) :
    x = .infinite false ∨ ∃ m, 0 < m.units ∧ x = .finite false m := by
  rcases pos_cases h hz with htop | ⟨k, hk, hp⟩
  · exact .inl (eq_posInfinite hx htop)
  obtain ⟨negative, hn, hs⟩ := nearest_toBinary64 hx hp
  have hk' : (0 : ℚ) < k := by exact_mod_cast hk
  obtain rfl : negative = false := by
    cases negative with
    | false => rfl
    | true =>
      simp only [signed, if_true] at hs
      linarith [abs_nonneg (k : ℚ)]
  cases hn with
  | beyond u hu hr => exact .inl rfl
  | within m hm => exact .inr ⟨m, units_pos_of_ne_zero hz hx, rfl⟩

theorem Decimal.ofBinary64_of_pos {negative : Bool} {m : Magnitude} (h : 0 < m.units) :
    ∃ c e, 0 < c ∧ ofBinary64 (.finite negative m) = .finite negative c e ∧
      FloatFormat.units.Rounds (c * 10 ^ e * Binary64.unit) m.units := by
  obtain ⟨c, e, hd, hr⟩ := ofBinary64_finite negative m
  exact ⟨c, e, Magnitude.pos_of_rounds h.ne' hr, hd, hr⟩

theorem Number.decimal_of_pos {a : Number} {x : Binary64} (h : int 0 ≤ a) (hz : a.isZero = false)
    (hx : a.toBinary64 = .ok x) :
    Decimal.ofBinary64 x = .infinite false ∨
      ∃ c e, 0 < c ∧ Decimal.ofBinary64 x = .finite false c e := by
  rcases toBinary64_of_pos h hz hx with rfl | ⟨m, hm, rfl⟩
  · exact .inl rfl
  · obtain ⟨c, e, hc, hd, -⟩ := Decimal.ofBinary64_of_pos hm
    exact .inr ⟨c, e, hc, hd⟩

theorem percentOf_of_number? {achieved required : Value} {r : Number}
    (hr : required.number? = some r) :
    percentOf achieved required =
      if r.isZero then .error (.percentOfNothing achieved required)
      else do
        let hundredfold ← liftArithmetic ((← achieved.orZero.toDecimal).mul (.ofInt 100))
        let reference ← required.toDecimal
        return (← liftArithmetic (hundredfold.div reference)).toBinary64 := by
  have hzero : required.isZero = r.isZero := by rw [Value.isZero, hr]
  unfold percentOf
  rw [hzero]
  cases required with
  | null => cases hr
  | _ => rfl

theorem percentOf_eq_ok {achieved required : Value} {r : Number} {p : Binary64}
    (hr : required.number? = some r) :
    percentOf achieved required = .ok p ↔ r.isZero = false ∧ ∃ x y d q,
      achieved.orZero.toBinary64 = .ok x ∧ (Decimal.ofBinary64 x).mul (.ofInt 100) = .ok d ∧
      r.toBinary64 = .ok y ∧ d.div (.ofBinary64 y) = .ok q ∧ p = q.toBinary64 := by
  rw [percentOf_of_number? hr]
  cases hz : r.isZero with
  | true => simp
  | false =>
    simp only [Value.toDecimal, Value.toBinary64_of_number? hr, Bool.false_eq_true, if_false,
      bind_eq_ok, liftArithmetic_eq_ok, true_and]
    constructor
    · rintro ⟨_, ⟨x, hx, ⟨⟩⟩, d, hd, _, ⟨y, hy, ⟨⟩⟩, q, hq, ⟨⟩⟩
      exact ⟨x, y, d, q, hx, hd, hy, hq, rfl⟩
    · rintro ⟨x, y, d, q, hx, hd, hy, hq, rfl⟩
      exact ⟨_, ⟨x, hx, rfl⟩, d, hd, _, ⟨y, hy, rfl⟩, q, hq, rfl⟩

theorem percentOf_mono {v w required : Value} {r : Number} {p q : Binary64} (h : v.AtMost w)
    (hr : required.number? = some r) (h0 : .int 0 ≤ r) (hp : percentOf v required = .ok p)
    (hq : percentOf w required = .ok q) : p ≤ q := by
  obtain ⟨a, b, ha, hb, hab⟩ := h
  obtain ⟨hz, x, y, d, e, hx, hd, hy, he, rfl⟩ := (percentOf_eq_ok hr).mp hp
  obtain ⟨-, x', y', d', e', hx', hd', hy', he', rfl⟩ := (percentOf_eq_ok hr).mp hq
  cases hy.symm.trans hy'
  obtain ⟨a', ha', hpos⟩ := Value.number?_orZero ha
  obtain ⟨b', hb', hpos'⟩ := Value.number?_orZero hb
  rw [Value.toBinary64_of_number? ha'] at hx
  rw [Value.toBinary64_of_number? hb'] at hx'
  have hxx : x ≤ x' := Number.toBinary64_mono ((Number.le_congr hpos hpos').mpr hab) hx hx'
  have hdd : d ≤ d' :=
    Decimal.scales_mul_hundred.mono (by norm_num) (Decimal.ofBinary64_mono hxx) hd hd'
  apply Decimal.toBinary64_mono
  rcases Number.decimal_of_pos h0 hz hy with hinf | ⟨c, f, hc, hfin⟩
  · rw [hinf] at he he'
    exact Decimal.scales_div_infinite.mono le_rfl hdd he he'
  · rw [hfin] at he he'
    refine (Decimal.scales_div f hc).mono ?_ hdd he he'
    exact one_div_nonneg.mpr (Decimal.scaled_nonneg c f)

end ExamAdmission
