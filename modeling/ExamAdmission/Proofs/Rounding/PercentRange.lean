import ExamAdmission.Proofs.Arithmetic.FewestDigits
import ExamAdmission.Proofs.Document.SumRange
import ExamAdmission.Proofs.Rounding.Digits
import ExamAdmission.Rule.Check

/-! The range of percents. As long as not much more is achieved than required a percent stays below
500, which any rounder of at most 25 places can take; all that is required is 100, which no rounder
of more places can. -/

namespace ExamAdmission

attribute [local irreducible] rangeEnd Binary64.unit

namespace Decimal

theorem exists_hundredfold (a : Bool) {c : ℕ} (e : ℤ) (hc : c < 10 ^ 27) :
    ∃ h j, (finite a c e).mul (ofInt 100) = .ok (.finite a h j) ∧
      (h : ℚ) * 10 ^ j = c * 10 ^ e * 100 := by
  obtain ⟨h, j, hmul, hround⟩ := scales_mul_hundred.finite a c e
  have hscale : (c : ℚ) * 10 ^ e * 100 = c * 10 ^ (e + 2) := by
    rw [ten_zpow_add, mul_assoc]
    norm_num
  rw [hscale] at hround ⊢
  exact ⟨h, j, hmul, hround.eq_of_digits (hc.trans (by norm_num))⟩

/-- There is one rounding on the way to a percent, between the printed decimals and the last one. -/
theorem exists_percent (a b : Bool) (m : Magnitude) {n : Magnitude} (hn : 0 < n.units) :
    ∃ (d : Decimal) (q : ℕ) (k : ℤ) (D E : ℕ × ℤ),
      (ofBinary64 (.finite a m)).mul (ofInt 100) = .ok d ∧
      d.div (ofBinary64 (.finite b n)) = .ok (finite (a != b) q k) ∧
      ofBinary64 (.finite a m) = finite a D.1 D.2 ∧
      ofBinary64 (.finite b n) = finite b E.1 E.2 ∧ 0 < E.1 ∧
      FloatFormat.decimals.Rounds (D.1 * 10 ^ D.2 * 100 / (E.1 * 10 ^ E.2)) (q * 10 ^ k) := by
  obtain ⟨c, e, hdec, hc⟩ := m.exists_digits
  obtain ⟨c', e', hc', hdec', -⟩ := @ofBinary64_of_pos b _ hn
  obtain ⟨h, j, hmul, hhundred⟩ := exists_hundredfold a e hc
  obtain ⟨q, k, hdiv, hround⟩ := div_finite a b h j e' hc'
  rw [hhundred] at hround
  exact ⟨_, q, k, (c, e), (c', e'), hdec a ▸ hmul, hdec' ▸ hdiv, hdec a, hdec', hc', hround⟩

end Decimal

/-- No percent of a course comes near it. -/
def percentLimit : Binary64 := .ofDecimal false 500 0

theorem ofBinary64_percentLimit : Decimal.ofBinary64 percentLimit = .finite false 5 2 := by
  decide +kernel

theorem ofBinary64_hundred : Decimal.ofBinary64 hundred = .finite false 1 2 := by
  decide +kernel

theorem position?_hundred : (Number.float hundred).position? = (Number.int 100).position? := by
  decide +kernel

theorem hundred_ne_nan : hundred ≠ .nan := by
  intro hnan
  have hplace := position?_hundred
  rw [hnan] at hplace
  cases hplace

theorem percent_eq_hundred {c : ℕ} {e : ℤ} (h : FloatFormat.decimals.Rounds 100 (c * 10 ^ e)) :
    (Decimal.finite false c e).toBinary64 = hundred := by
  refine Decimal.toBinary64_of_value ofBinary64_hundred ?_
  rw [FloatFormat.Rounds.eq_natCast (m := 100) h (by norm_num)]
  norm_num

theorem Decimal.percent_le {m n : Magnitude} (hn : 0 < n.units)
    (hle : 3 * m.units ≤ 4 * n.units) :
    ∃ d c k, (ofBinary64 (.finite false m)).mul (ofInt 100) = .ok d ∧
      d.div (ofBinary64 (.finite false n)) = .ok (finite false c k) ∧ (c : ℚ) * 10 ^ k ≤ 500 := by
  obtain ⟨d, c, k, D, E, hmul, hdiv, hdec, hdec', hE, hround⟩ := exists_percent false false m hn
  refine ⟨d, c, k, hmul, hdiv, ?_⟩
  have hunit := Binary64.unit_pos
  have hEpos : (0 : ℚ) < E.1 * 10 ^ E.2 := mul_pos (by exact_mod_cast hE) (ten_zpow_pos _)
  have hDE : (D.1 * 10 ^ D.2 : ℚ) ≤ 4 * (E.1 * 10 ^ E.2) := by
    rcases Nat.eq_zero_or_pos m.units with hm | hm
    · have hzero : D.1 = 0 := by
        have h := hdec
        simp only [ofBinary64, hm, if_true, Decimal.finite.injEq] at h
        exact h.2.1.symm
      rw [hzero, Nat.cast_zero, zero_mul]
      positivity
    · have hD := ((rounds_of_ofBinary64 hdec).le_and_le (by exact_mod_cast hm)).2
      have hE' := ((rounds_of_ofBinary64 hdec').le_and_le (by exact_mod_cast hn)).1
      have hmn : (3 : ℚ) * m.units ≤ 4 * n.units := by exact_mod_cast hle
      refine le_of_mul_le_mul_right ?_ hunit
      linarith
  have hquot : D.1 * 10 ^ D.2 * 100 / (E.1 * 10 ^ E.2) ≤ ((500 : ℕ) : ℚ) * 10 ^ (0 : ℤ) := by
    rw [div_le_iff₀ hEpos]
    norm_num
    linarith
  have hlimit := hround.mono (FloatFormat.decimals_self 0 (by norm_num)) hquot
  simpa using hlimit

/-- A double is neither negative nor above the limit of percents. -/
def Binary64.InLimit (p : Binary64) : Prop := .zero false ≤ p ∧ p ≤ percentLimit

theorem Number.units_pos {a : Number} {negative : Bool} {m : Magnitude} (h0 : int 0 ≤ a)
    (hz : a.isZero = false) (hx : a.toBinary64 = .ok (.finite negative m)) :
    negative = false ∧ 0 < m.units := by
  rcases toBinary64_of_pos h0 hz hx with h | ⟨i, hi, h⟩
  · cases h
  · obtain ⟨rfl, rfl⟩ := Binary64.finite.inj h
    exact ⟨rfl, hi⟩

theorem Value.toBinary64_orZero {v : Value} {a : Number} {negative : Bool} {m : Magnitude}
    (hv : v.number? = some a) (h0 : .int 0 ≤ a) (hx : a.toBinary64 = .ok (.finite negative m)) :
    v.orZero.toBinary64 = .ok (.finite false m) := by
  unfold orZero
  rw [holds_of_number? hv]
  cases hz : a.isZero with
  | true =>
    obtain ⟨s, hn, -⟩ := Number.nearest_toBinary64 hx (Number.isZero_iff.mp hz)
    rw [Int.cast_zero, abs_zero] at hn
    obtain ⟨i, hi, hunits⟩ := hn.units_of_zero
    obtain ⟨-, rfl⟩ := Binary64.finite.inj hi
    have hzero : m = .zero := Magnitude.ext hunits
    rw [hzero]
    exact (toBinary64_of_number? rfl).trans Number.toBinary64_zero
  | false =>
    obtain ⟨rfl, -⟩ := Number.units_pos h0 hz hx
    exact (toBinary64_of_number? hv).trans hx

/-- There is a percent, and it keeps the limit, if not more than four thirds are achieved. -/
theorem percentOf_inLimit {achieved required : Value} {a r : Number} {negative : Bool}
    {m n : Magnitude} (ha : achieved.number? = some a) (hr : required.number? = some r)
    (h0 : .int 0 ≤ a) (hx : a.toBinary64 = .ok (.finite negative m)) (hr0 : .int 0 ≤ r)
    (hz : r.isZero = false) (hy : r.toBinary64 = .ok (.finite false n))
    (hle : 3 * m.units ≤ 4 * n.units) : ∃ p, percentOf achieved required = .ok p ∧ p.InLimit := by
  have hn := (Number.units_pos hr0 hz hy).2
  obtain ⟨d, c, k, hmul, hdiv, hquot⟩ := Decimal.percent_le hn hle
  refine ⟨_, (percentOf_eq_ok hr).mpr ⟨hz, _, _, d, _, Value.toBinary64_orZero ha h0 hx, hmul, hy,
    hdiv, rfl⟩, ?_, ?_⟩
  · have hzero : Decimal.finite false 0 0 ≤ .finite false c k := by
      simpa [signed] using Decimal.scaled_nonneg c k
    simpa only [Decimal.toBinary64_zero] using Decimal.toBinary64_mono hzero
  · have hlimit : Decimal.finite false c k ≤ .finite false 500 0 := by
      simpa [signed] using hquot
    exact Decimal.toBinary64_mono hlimit

theorem percentOf_self {v : Value} {a : Number} {p : Binary64} (ha : v.number? = some a)
    (h0 : .int 0 ≤ a) (hp : percentOf v v = .ok p) :
    p = hundred ∧ ∃ n, a.toBinary64 = .ok (.finite false n) := by
  obtain ⟨hz, x, y, d, q, hx, hmul, hy, hdiv, rfl⟩ := (percentOf_eq_ok ha).mp hp
  rcases Number.toBinary64_of_pos h0 hz hy with rfl | ⟨n, hn, rfl⟩
  · -- there is no quotient of infinities
    have hself : v.orZero = v := if_pos (by rw [Value.holds_of_number? ha, hz]; rfl)
    rw [hself, Value.toBinary64_of_number? ha, hy] at hx
    cases hx
    cases hmul
    cases hdiv
  · obtain ⟨d', c, k, D, E, hmul', hdiv', hdec, hdec', hE, hround⟩ :=
      Decimal.exists_percent false false n hn
    cases hx.symm.trans (Value.toBinary64_orZero ha h0 hy)
    cases hmul.symm.trans hmul'
    cases hdiv.symm.trans hdiv'
    obtain ⟨-, hD, he⟩ := Decimal.finite.inj (hdec.symm.trans hdec')
    have hpos : (0 : ℚ) < E.1 * 10 ^ E.2 := mul_pos (by exact_mod_cast hE) (ten_zpow_pos _)
    rw [hD, he, mul_div_cancel_left₀ _ hpos.ne'] at hround
    exact ⟨percent_eq_hundred hround, n, hy⟩

namespace Number

variable {a b : Number}

theorem isFinite_of_le (h0 : int 0 ≤ a) (h : a ≤ b) (hb : b.IsFinite) : a.IsFinite := by
  rcases nonneg_cases h0 with htop | ⟨k, -, hk⟩
  · obtain ⟨k, hk⟩ := hb
    rw [le_iff, htop, hk] at h
    cases h
  · exact ⟨k, hk⟩

theorem toBinary64_of_isZero (h : a.isZero = true) :
    ∃ negative m, a.toBinary64 = .ok (.finite negative m) := by
  cases a with
  | int n =>
    obtain rfl : n = 0 := by simpa [isZero_int] using h
    exact ⟨_, _, toBinary64_zero⟩
  | float x =>
    have hf : x.IsFinite := isFinite_float.mp ⟨0, isZero_iff.mp h⟩
    obtain ⟨negative, m, rfl⟩ := hf
    exact ⟨negative, m, rfl⟩

theorem exists_toBinary64_of_le {t : Bool} {n : Magnitude} (h0 : int 0 ≤ a) (h : a ≤ b)
    (hfa : a.IsFinite) (hfb : b.IsFinite) (hb : b.toBinary64 = .ok (.finite t n)) :
    ∃ s m, a.toBinary64 = .ok (.finite s m) ∧ m.units ≤ n.units := by
  have hunits : (a.units : ℚ) ≤ b.units := by exact_mod_cast units_le h0 h hfa hfb
  have hround : FloatFormat.units.Rounds b.units n.units := by
    obtain ⟨s, hs, -⟩ := nearest_toBinary64 hb (position?_units (le_trans h0 h) hfb)
    rw [Int.cast_natCast, Nat.abs_cast] at hs
    cases hs with
    | within m hm => exact hm
  cases a with
  | float x =>
    obtain ⟨s, m, rfl⟩ := isFinite_float.mp hfa
    have hle := (Binary64.rounds_units m).mono hround hunits
    exact ⟨s, m, rfl, by exact_mod_cast hle⟩
  | int k =>
    have hle : nearestUnits (int k).units 1 ≤ n.units := by
      exact_mod_cast (nearestUnits_one_rounds _).mono hround hunits
    obtain ⟨s, m, hm, hmunits⟩ := toBinary64_int_of_lt (Nat.lt_of_le_of_lt hle n.lt_rangeEnd)
    exact ⟨s, m, hm, hmunits ▸ hle⟩

end Number

namespace Number.Tracks

variable {a b : Number} {k exact exact' : ℕ} {v w : Value} {p : Binary64}

theorem isZero_eq_false (h : a.Tracks k exact) (hpos : 0 < exact) : a.isZero = false := by
  rw [Bool.eq_false_iff, Ne, isZero_iff, position?_units h.nonneg h.finite]
  simpa using (h.within.pos hpos).ne'

theorem percentOf_inLimit (ha : a.Tracks k exact) (hb : b.Tracks k exact')
    (hv : v.number? = some a) (hw : w.number? = some b) (hk : k + 1 ≤ 2 ^ 49 + 1)
    (hpos : 0 < exact') (hle : exact ≤ exact') (he : 2 * exact' < rangeEnd) :
    ∃ p, percentOf v w = .ok p ∧ p.InLimit := by
  obtain ⟨s, m, hx, hm⟩ := ha.toBinary64 hk (by omega)
  obtain ⟨t, n, hy, hn⟩ := hb.toBinary64 hk he
  have hz := hb.isZero_eq_false hpos
  obtain ⟨rfl, -⟩ := units_pos hb.nonneg hz hy
  exact ExamAdmission.percentOf_inLimit hv hw ha.nonneg hx hb.nonneg hz hy
    (hm.three_mul_le hn hk hle)

end Number.Tracks

namespace Rounder

variable {r : Rounder} {p x : Binary64}

/-- The rounders of at most 25 places. -/
def Fits : Rounder → Prop
  | .unchanged => True
  | .toPlaces _ places => places ≤ 25

theorem exists_round_of_fits (h : r.Fits) (hp : p.InLimit) : ∃ y, r.round p = .ok y := by
  cases r with
  | unchanged => exact ⟨p, rfl⟩
  | toPlaces bearing places =>
    have hlow : .finite false 0 0 ≤ Decimal.ofBinary64 p :=
      Decimal.ofBinary64_zero false ▸ Decimal.ofBinary64_mono hp.1
    have hhigh : Decimal.ofBinary64 p ≤ .finite false 500 0 := by
      refine Decimal.le_trans (Decimal.ofBinary64_mono hp.2) ?_
      rw [ofBinary64_percentLimit]
      norm_num [signed]
    have hdigits : 500 * 10 ^ places < 10 ^ 28 :=
      Nat.lt_of_le_of_lt (Nat.mul_le_mul_left 500 (Nat.pow_le_pow_right (by decide) h))
        (by norm_num)
    exact exists_round_iff.mpr (not_exceeds_of_le hlow hhigh hdigits)

/-- All of something is one hundred percent, for which only 25 places are left. -/
theorem fits_of_hundred (h : r.round hundred = .ok x) : r.Fits := by
  cases r with
  | unchanged => trivial
  | toPlaces bearing places =>
    by_contra hplaces
    have hlow : .finite false 100 0 ≤ Decimal.ofBinary64 hundred := by
      rw [ofBinary64_hundred]
      norm_num [signed]
    have hdigits : 10 ^ 28 ≤ 100 * 10 ^ places :=
      le_trans (by norm_num)
        (Nat.mul_le_mul_left 100 (Nat.pow_le_pow_right (by decide) (Nat.lt_of_not_le hplaces)))
    exact exists_round_iff.mp ⟨x, h⟩ (exceeds_of_le hlow (by decide) hdigits)

end Rounder

end ExamAdmission
