import ExamAdmission.Proofs.Arithmetic.WholeNumbers

/-! How near the shortest digits of a double come to a whole number that it is not. They stay away
from it by more than a double next to 100 is away from the middle of the next gap. -/

namespace ExamAdmission

attribute [local irreducible] rangeEnd Binary64.unit

theorem FloatFormat.units_zpow (s : ℕ) : (FloatFormat.units.base : ℚ) ^ (s : ℤ) = 2 ^ s := by
  rw [zpow_natCast]
  rfl

/-- A little more than 2^-47 hundredths. -/
def gap : ℚ := 711 / 10 ^ 19

namespace Magnitude

variable {m : Magnitude} {k : ℕ}

/-- The shortest digits of a magnitude, in units. -/
def decimalUnits (m : Magnitude) : ℚ := m.shortest.1 * 10 ^ m.shortest.2 * Binary64.unit

theorem rounds_decimalUnits (m : Magnitude) : FloatFormat.units.Rounds m.decimalUnits m.units :=
  rounds_of_readsBack m.readsBack_shortest

theorem decimalUnits_bounds (hm : 0 < m.units) :
    (m.units : ℚ) / 2 ≤ m.decimalUnits ∧ m.decimalUnits ≤ 3 / 2 * m.units :=
  m.rounds_decimalUnits.le_and_le (by exact_mod_cast hm)

theorem grid_le_abs_sub (hk : k < 2 ^ 53) (hne : k * Binary64.unit ≠ m.units) :
    (10 : ℚ) ^ (min m.shortest.2 0) * Binary64.unit ≤ |k * Binary64.unit - m.decimalUnits| := by
  have hunit := Binary64.unit_pos
  have hwhole : (k : ℚ) * 10 ^ (0 : ℤ) ≠ m.shortest.1 * 10 ^ m.shortest.2 := by
    intro heq
    have hround := m.rounds_decimalUnits
    rw [decimalUnits, ← heq, zpow_zero, mul_one] at hround
    have hsame := (rounds_whole hk.le).unique hround
    exact hne (by exact_mod_cast hsame)
  by_contra hlt
  rw [not_le, decimalUnits] at hlt
  rcases Int.le_total m.shortest.2 0 with he | he
  · rw [min_eq_left he] at hlt
    exact hwhole (scaled_eq_of_abs_sub_lt he hunit (by simpa using hlt))
  · rw [min_eq_right he, abs_sub_comm] at hlt
    exact hwhole (scaled_eq_of_abs_sub_lt he hunit (by simpa using hlt)).symm

/-- A positive magnitude has all of its 53 bits, if it is not on the finest grid. -/
theorem exists_bits (m : Magnitude) (hpos : 0 < m.units) :
    ∃ n s : ℕ, m.units = n * 2 ^ s ∧ n < 2 ^ 53 ∧ (s = 0 ∨ 2 ^ 52 ≤ n) := by
  rcases Binary64.rounds_units m with ⟨hzero, -⟩ | ⟨k, n, h, hvalue⟩
  · have hzero' : m.units = 0 := by exact_mod_cast hzero
    omega
  obtain ⟨s, rfl⟩ := Int.eq_ofNat_of_zero_le (h.allowed 0 rfl)
  rw [FloatFormat.units_zpow] at hvalue
  have hm : m.units = n * 2 ^ s := by exact_mod_cast hvalue
  have hupper := h.upper
  rw [FloatFormat.zpow_base_add, FloatFormat.units_zpow, hvalue] at hupper
  have hlt : n * 2 ^ s < 2 ^ 53 * 2 ^ s := by exact_mod_cast hupper
  refine ⟨n, s, hm, Nat.lt_of_mul_lt_mul_right hlt, h.lower.imp (fun hl => ?_) fun hl => ?_⟩
  · exact_mod_cast (Option.some.inj hl).symm
  · rw [FloatFormat.precision_pred, FloatFormat.zpow_base_add, FloatFormat.units_zpow, hvalue] at hl
    have hle : 2 ^ 52 * 2 ^ s ≤ n * 2 ^ s := by exact_mod_cast hl
    exact Nat.le_of_mul_le_mul_right hle (Nat.two_pow_pos s)

theorem exists_lastPlace (hlarge : Binary64.unit ≤ 2 * m.units)
    (hsize : m.units ≤ 2 ^ 50 * Binary64.unit) :
    ∃ n s i : ℕ, m.units = n * 2 ^ s ∧ 2 ^ 52 ≤ n ∧ n < 2 ^ 53 ∧ Binary64.unit = 2 * i * 2 ^ s := by
  obtain ⟨t, ht, hunit⟩ : ∃ t, 54 ≤ t ∧ Binary64.unit = Nat.pow 2 t :=
    ⟨1074, by decide, Binary64.unit_eq⟩
  rw [hunit, Nat.pow_eq] at hlarge hsize
  have hstart : 2 ^ 54 ≤ 2 ^ t := Nat.pow_le_pow_right (by decide) ht
  obtain ⟨n, s, hm, hn', hs⟩ := m.exists_bits (by omega)
  have hn : 2 ^ 52 ≤ n := by
    rcases hs with rfl | hn
    · omega
    · exact hn
  have hplaces : s + 2 ≤ t := by
    have hle : 2 ^ (52 + s) ≤ 2 ^ (50 + t) := by
      rw [Nat.pow_add, Nat.pow_add]
      exact (Nat.mul_le_mul_right _ hn).trans (hm.symm.trans_le hsize)
    have := (Nat.pow_le_pow_iff_right (by decide : 1 < 2)).mp hle
    omega
  refine ⟨n, s, 2 ^ (t - 1 - s), hm, hn, hn', ?_⟩
  rw [hunit, Nat.mul_assoc, ← Nat.pow_add, ← Nat.pow_succ']
  congr 1
  omega

theorem units_le_of_lt {n s : ℕ} (hm : m.units = n * 2 ^ s) (hn : n < 2 ^ 53) :
    (m.units : ℚ) ≤ (2 ^ 53 - 1) * 2 ^ s := by
  have hlast : (n : ℚ) + 1 ≤ 2 ^ 53 := by exact_mod_cast hn
  rw [hm]
  push_cast
  exact mul_le_mul_of_nonneg_right (by linarith) (by positivity)

/-- What is within half of the last place of a magnitude is rounded to it, if it is not a power of
two. -/
theorem rounds_of_abs_sub_lt {n s : ℕ} {q : ℚ} (hm : m.units = n * 2 ^ s) (hn : 2 ^ 52 < n)
    (hn' : n < 2 ^ 53) (h : |m.units - q| < 2 ^ s / 2) : FloatFormat.units.Rounds q m.units := by
  have hpow : (0 : ℚ) < 2 ^ s := by positivity
  have hvalue : (m.units : ℚ) = n * 2 ^ s := by exact_mod_cast hm
  have hlow : (2 ^ 52 + 1 : ℚ) * 2 ^ s ≤ m.units := by
    rw [hvalue]
    exact mul_le_mul_of_nonneg_right (by exact_mod_cast hn) hpow.le
  have hhigh := units_le_of_lt hm hn'
  obtain ⟨hleft, hright⟩ := abs_lt.mp h
  refine .inr ⟨s, n, ⟨?_, ?_, .inr ?_, FloatFormat.units_allows s⟩,
    by rw [FloatFormat.units_zpow, hvalue]⟩
  · rw [FloatFormat.units_zpow]
    exact Direction.rounds_halfEven_of_abs_sub_lt hpow (by rwa [← hvalue, abs_sub_comm])
  · have hend : ((FloatFormat.units.base ^ FloatFormat.units.precision : ℕ) : ℚ) = 2 ^ 53 := by
      norm_num [FloatFormat.units]
    rw [FloatFormat.zpow_base_add, FloatFormat.units_zpow, hend]
    linarith
  · have hstart : ((FloatFormat.units.base ^ (FloatFormat.units.precision - 1) : ℕ) : ℚ) =
        2 ^ 52 := by
      norm_num [FloatFormat.units]
    rw [FloatFormat.precision_pred, FloatFormat.zpow_base_add, FloatFormat.units_zpow, hstart]
    linarith

/-- On a grid that is fine enough the digits are those nearest to the magnitude. -/
theorem abs_sub_decimalUnits_le {n s : ℕ} (hm : m.units = n * 2 ^ s) (hn : 2 ^ 52 < n)
    (hn' : n < 2 ^ 53) (hfine : (10 : ℚ) ^ m.shortest.2 * Binary64.unit < 2 ^ s) :
    |m.units - m.decimalUnits| ≤ (10 : ℚ) ^ m.shortest.2 * Binary64.unit / 2 := by
  have hgrid : 0 < (10 : ℚ) ^ m.shortest.2 * Binary64.unit :=
    mul_pos (ten_zpow_pos _) Binary64.unit_pos
  have hpos : m.units ≠ 0 := by
    rw [hm]
    exact (Nat.mul_pos (by omega) (Nat.two_pow_pos s)).ne'
  have herr : |(m.units : ℚ) - m.nearestOn m.shortest.2 * 10 ^ m.shortest.2 * Binary64.unit| ≤
      10 ^ m.shortest.2 * Binary64.unit / 2 := by
    have hnear := FloatFormat.halfEven_abs_sub_le (m.rounds_nearestOn m.shortest.2)
    have hscale := mul_le_mul_of_nonneg_right hnear hgrid.le
    rw [← abs_of_pos hgrid, ← abs_mul, sub_mul, abs_of_pos hgrid,
      div_mul_cancel₀ _ hgrid.ne', ← mul_assoc] at hscale
    linarith
  have hback : m.readsBack (m.nearestOn m.shortest.2) m.shortest.2 = true := by
    rw [readsBack_iff]
    refine rounds_of_abs_sub_lt hm hn hn' (herr.trans_lt ?_)
    linarith
  have hdigits : m.nearestOn m.shortest.2 = m.shortest.1 :=
    Option.some.inj ((onGrid?_of_nearestOn hback).symm.trans (onGrid?_shortest hpos))
  rwa [hdigits] at herr

theorem decimalUnits_near {n s : ℕ} (hm : m.units = n * 2 ^ s) (hn' : n < 2 ^ 53)
    (hlarge : Binary64.unit ≤ 2 * m.units) :
    |m.decimalUnits - m.units| ≤ 2 ^ s ∧ m.decimalUnits ≤ 2 ^ 53 * 2 ^ s := by
  have hunit : 2 ^ 54 ≤ Binary64.unit :=
    (Nat.le_mul_of_pos_left _ (by positivity)).trans Binary64.le_unit
  have hstart : (2 : ℚ) ^ 53 ≤ m.units := by exact_mod_cast (by omega : 2 ^ 53 ≤ m.units)
  have hpos : 0 < m.units := by omega
  have herr := FloatFormat.units_abs_sub_le_of_le m.rounds_decimalUnits
    (by linarith [(decimalUnits_bounds hpos).1])
  have hhigh := units_le_of_lt hm hn'
  have hupper : m.decimalUnits ≤ 2 ^ 53 * 2 ^ s := by linarith [(abs_le.mp herr).2]
  exact ⟨herr.trans (by linarith), hupper⟩

/-- A whole number next to a magnitude is twice as far from it as its digits, since the magnitude is
then not a power of two. -/
theorem gap_lt_abs_sub_of_fine {n s i : ℕ} (hm : m.units = n * 2 ^ s) (hn : 2 ^ 52 ≤ n)
    (hn' : n < 2 ^ 53) (hunit : Binary64.unit = 2 * i * 2 ^ s)
    (hlarge : Binary64.unit ≤ 2 * m.units) (hne : k * Binary64.unit ≠ m.units)
    (hfine : (10 : ℚ) ^ m.shortest.2 * Binary64.unit ≤ gap * m.decimalUnits) :
    gap * m.decimalUnits < |k * Binary64.unit - m.decimalUnits| := by
  obtain ⟨hnear, hupper⟩ := decimalUnits_near hm hn' hlarge
  have hpow : (0 : ℚ) < 2 ^ s := by positivity
  have hgap : gap * m.decimalUnits ≤ 65 / 100 * 2 ^ s := by
    have hscale := mul_le_mul_of_nonneg_left hupper (by norm_num [gap] : 0 ≤ gap)
    refine hscale.trans ?_
    rw [← mul_assoc]
    exact mul_le_mul_of_nonneg_right (by norm_num [gap]) hpow.le
  have hwhole : (k * Binary64.unit : ℚ) - m.units = ((2 * (i * k) : ℤ) - n) * 2 ^ s := by
    rw [hunit, hm]
    push_cast
    ring
  have hdist : (k * Binary64.unit : ℚ) - m.decimalUnits =
      (k * Binary64.unit - m.units) - (m.decimalUnits - m.units) := by ring
  have hapart := abs_sub_abs_le_abs_sub (k * Binary64.unit - m.units : ℚ)
    (m.decimalUnits - m.units)
  rw [← hdist, hwhole, abs_mul, abs_of_pos hpow] at hapart
  have hsteps : (2 * (i * k) : ℤ) - n ≠ 0 := by
    intro hzero
    rw [sub_eq_zero] at hzero
    have hsame : 2 * (i * k) = n := by exact_mod_cast hzero
    apply hne
    rw [hunit, hm, ← hsame]
    ring
  -- in last places the distance is two or more, or it is one and n is odd
  rcases (Int.one_le_abs hsteps).lt_or_eq with hfar | hnext
  · have hfar' : (2 : ℚ) ≤ |((2 * (i * k) : ℤ) - n : ℚ)| := by exact_mod_cast hfar
    have hscale := mul_le_mul_of_nonneg_right hfar' hpow.le
    linarith
  · have hodd : n ≠ 2 ^ 52 := by
      rintro rfl
      rcases (abs_eq zero_le_one).mp hnext.symm with h | h <;> omega
    have hdigits := abs_sub_decimalUnits_le hm (lt_of_le_of_ne hn hodd.symm) hn' (by linarith)
    rw [abs_sub_comm] at hdigits
    have hnext' : |((2 * (i * k) : ℤ) - n : ℚ)| = 1 := by exact_mod_cast hnext.symm
    rw [hnext', one_mul] at hapart
    linarith

theorem gap_lt_abs_sub (hm : 0 < m.units) (hsize : m.units ≤ 2 ^ 50 * Binary64.unit)
    (hk : k < 2 ^ 53) (hne : k * Binary64.unit ≠ m.units) :
    gap * m.decimalUnits < |k * Binary64.unit - m.decimalUnits| := by
  have hunit := Binary64.unit_pos
  obtain ⟨hlow, hhigh⟩ := decimalUnits_bounds hm
  have hpos : (0 : ℚ) < m.units := by exact_mod_cast hm
  rcases Nat.lt_or_ge (2 * m.units) Binary64.unit with hsmall | hlarge
  · have hsmall' : (2 : ℚ) * m.units < Binary64.unit := by exact_mod_cast hsmall
    rw [lt_abs, gap]
    rcases Nat.eq_zero_or_pos k with rfl | hk
    · rw [Nat.cast_zero, zero_mul, zero_sub, neg_neg]
      exact .inr (by linarith)
    · have hone : (1 : ℚ) * Binary64.unit ≤ k * Binary64.unit :=
        mul_le_mul_of_nonneg_right (by exact_mod_cast hk) hunit.le
      exact .inl (by linarith)
  · obtain ⟨n, s, i, hvalue, hn, hn', hstep⟩ := exists_lastPlace hlarge hsize
    rcases lt_or_ge (gap * m.decimalUnits) (10 ^ (min m.shortest.2 0) * Binary64.unit) with h | h
    · exact h.trans_le (grid_le_abs_sub hk hne)
    · refine gap_lt_abs_sub_of_fine hvalue hn hn' hstep hlarge hne ?_
      have hsize' : (m.units : ℚ) ≤ 2 ^ 50 * Binary64.unit := by exact_mod_cast hsize
      rcases Int.le_total m.shortest.2 0 with he | he
      · rwa [min_eq_left he] at h
      · -- a whole multiple of one is farther away than the gap
        rw [min_eq_right he, zpow_zero, one_mul, gap] at h
        linarith

theorem lt_decimalUnits (hm : 0 < m.units) (hsize : m.units ≤ 2 ^ 50 * Binary64.unit)
    (hk : k < 2 ^ 53) (h : k * Binary64.unit < m.units) :
    k * Binary64.unit < (1 - gap) * m.decimalUnits := by
  have hapart := gap_lt_abs_sub hm hsize hk h.ne
  have hle : (k * Binary64.unit : ℚ) ≤ m.decimalUnits := by
    by_contra hlt
    have hback := m.rounds_decimalUnits.mono (rounds_whole hk.le) (not_le.mp hlt).le
    exact absurd h (Nat.not_lt.mpr (by exact_mod_cast hback))
  rw [abs_sub_comm, abs_of_nonneg (sub_nonneg.mpr hle)] at hapart
  linarith

theorem decimalUnits_lt (hm : 0 < m.units) (hsize : m.units ≤ 2 ^ 50 * Binary64.unit)
    (hk : k < 2 ^ 53) (h : m.units < k * Binary64.unit) :
    (1 + gap) * m.decimalUnits < k * Binary64.unit := by
  have hapart := gap_lt_abs_sub hm hsize hk h.ne'
  have hle : m.decimalUnits ≤ (k * Binary64.unit : ℚ) := by
    by_contra hlt
    have hback := (rounds_whole hk.le).mono m.rounds_decimalUnits (not_le.mp hlt).le
    exact absurd h (Nat.not_lt.mpr (by exact_mod_cast hback))
  rw [abs_of_nonneg (sub_nonneg.mpr hle)] at hapart
  linarith

end Magnitude

end ExamAdmission
