import ExamAdmission.Proofs.Arithmetic.Doubles

/-! What becomes a double: decimals, integers and sums are each rounded once. -/

namespace ExamAdmission

/-! Powers of ten, as numbers of digits and as scales of decimals. -/

theorem decimalLength_pos (n : ℕ) : 0 < decimalLength n := Nat.length_toDigits_pos

theorem lt_pow_decimalLength (n : ℕ) : n < 10 ^ decimalLength n :=
  (decimalLength_le_iff (decimalLength_pos n)).mp (Nat.le_refl _)

theorem pow_decimalLength_le {n : ℕ} (h : 0 < n) : 10 ^ (decimalLength n - 1) ≤ n := by
  rcases Nat.eq_zero_or_pos (decimalLength n - 1) with hz | hz
  · rw [hz]
    exact h
  · apply Nat.le_of_not_lt
    intro hlt
    have := (decimalLength_le_iff hz).mpr hlt
    omega

theorem ten_zpow_pos (e : ℤ) : (0 : ℚ) < 10 ^ e := zpow_pos (by norm_num) e

theorem ten_zpow_le {e e' : ℤ} (h : e ≤ e') : (10 : ℚ) ^ e ≤ 10 ^ e' :=
  zpow_le_zpow_right₀ (by norm_num) h

theorem ten_zpow_add (e e' : ℤ) : (10 : ℚ) ^ (e + e') = 10 ^ e * 10 ^ e' :=
  zpow_add₀ (by norm_num) e e'

theorem ten_zpow_eq_div (e : ℤ) :
    (10 : ℚ) ^ e = (Nat.pow 10 e.toNat : ℕ) / (Nat.pow 10 (-e).toNat : ℕ) := by
  obtain ⟨n, rfl | rfl⟩ := e.eq_nat_or_neg <;> simp

theorem lt_ten_zpow_decimalLength (n : ℕ) (e : ℤ) :
    (n : ℚ) * 10 ^ e < 10 ^ (e + decimalLength n) := by
  have h : (n : ℚ) < 10 ^ decimalLength n := by exact_mod_cast lt_pow_decimalLength n
  rw [add_comm, ten_zpow_add, zpow_natCast]
  exact mul_lt_mul_of_pos_right h (ten_zpow_pos e)

theorem ten_zpow_decimalLength_le {n : ℕ} (h : 0 < n) (e : ℤ) :
    (10 : ℚ) ^ (e + decimalLength n - 1) ≤ n * 10 ^ e := by
  have hn : (10 : ℚ) ^ (decimalLength n - 1) ≤ n := by exact_mod_cast pow_decimalLength_le h
  have hl := decimalLength_pos n
  rw [show e + decimalLength n - 1 = (decimalLength n - 1 : ℕ) + e by omega, ten_zpow_add,
    zpow_natCast]
  exact mul_le_mul_of_nonneg_right hn (ten_zpow_pos e).le

/-! The conversions, counted in units of 2^-1074. -/

-- both are far too great to be written out
attribute [local irreducible] rangeEnd Binary64.unit

namespace Binary64

theorem unit_eq : unit = Nat.pow 2 1074 := by
  unfold unit
  rfl

theorem le_unit : 10 ^ 250 * 2 ^ 54 ≤ unit := by decide +kernel

theorem unit_pos : (0 : ℚ) < unit := by
  have h : 0 < unit := Nat.lt_of_lt_of_le (by positivity) le_unit
  exact_mod_cast h

theorem unit_mul_lt_rangeEnd : 10 ^ 28 * unit * 2 < rangeEnd := by decide +kernel

theorem unit_lt : (unit : ℚ) < 10 ^ (324 : ℤ) := by
  have h : unit < 10 ^ 324 := by decide +kernel
  exact_mod_cast h

theorem rangeEnd_le : (rangeEnd : ℚ) ≤ 10 ^ (310 : ℤ) * unit := by
  have h : rangeEnd ≤ 10 ^ 310 * unit := by decide +kernel
  exact_mod_cast h

theorem rounds_zero_of_small {q : ℚ} (h0 : 0 ≤ q) (hq : q < 1 / 2) :
    FloatFormat.units.Rounds q (Magnitude.zero.units : ℕ) := by
  refine .inr ⟨0, 0, ⟨?_, ?_, .inl rfl, FloatFormat.units_allows 0⟩, by simp [Magnitude.zero]⟩
  · rw [zpow_zero, div_one]
    refine ⟨by norm_num; linarith, by norm_num; linarith, ?_⟩
    rintro (h | h) <;> norm_num at h <;> linarith
  · calc q
      _ < 1 := by linarith
      _ ≤ (FloatFormat.units.base : ℚ) ^ (FloatFormat.units.precision + 0 : ℤ) :=
        one_le_zpow₀ FloatFormat.units.one_le_base (by decide)

theorem scaled_lt_half {c : ℕ} {e : ℤ} (h : e + decimalLength c < -330) :
    (c : ℚ) * 10 ^ e * unit < 1 / 2 := by
  have hlen := (lt_ten_zpow_decimalLength c e).le.trans (ten_zpow_le (by omega : _ ≤ -331))
  calc (c : ℚ) * 10 ^ e * unit
    _ ≤ 10 ^ (-331 : ℤ) * unit := mul_le_mul_of_nonneg_right hlen unit_pos.le
    _ < 10 ^ (-331 : ℤ) * 10 ^ (324 : ℤ) := mul_lt_mul_of_pos_left unit_lt (ten_zpow_pos _)
    _ < 1 / 2 := by rw [← ten_zpow_add]; norm_num

theorem rangeEnd_le_scaled {c : ℕ} {e : ℤ} (hc : 0 < c) (h : 310 < e + decimalLength c) :
    (rangeEnd : ℚ) ≤ c * 10 ^ e * unit := by
  refine rangeEnd_le.trans (mul_le_mul_of_nonneg_right ?_ unit_pos.le)
  exact (ten_zpow_le (by omega)).trans (ten_zpow_decimalLength_le hc e)

/-- Reading a decimal rounds its exact value once, however far its exponent is. -/
theorem nearest_ofDecimal (negative : Bool) (c : ℕ) (e : ℤ) :
    Nearest negative (c * 10 ^ e * unit) (ofDecimal negative c e) := by
  have hnum : (c : ℚ) * 10 ^ e * unit =
      (c * Nat.pow 10 e.toNat * unit : ℕ) / (Nat.pow 10 (-e).toNat : ℕ) := by
    rw [ten_zpow_eq_div]
    push_cast
    ring
  have hexact := nearestUnits_rounds (c * Nat.pow 10 e.toNat * unit)
    (Nat.pow_pos (n := (-e).toNat) (by decide : 0 < 10))
  rw [← Nat.pow_eq, ← hnum] at hexact
  unfold ofDecimal
  by_cases hc : c = 0
  · subst hc
    simp only [decide_true, Bool.true_or, if_true]
    exact .within .zero (by simpa using rounds_zero_of_small le_rfl (by norm_num))
  have hpos := Nat.pos_of_ne_zero hc
  by_cases hlow : e + decimalLength c < -330
  · simp only [hc, hlow, decide_true, Bool.or_true, if_true]
    refine .within .zero (rounds_zero_of_small ?_ (scaled_lt_half hlow))
    have := ten_zpow_pos e
    have := unit_pos
    positivity
  · by_cases hhigh : 310 < e + decimalLength c
    · simp only [hc, hlow, hhigh, decide_false, Bool.or_false, Bool.false_eq_true, if_true,
        if_false]
      refine .beyond _ hexact ?_
      have hr := nearestUnits_one_rounds rangeEnd
      have := rounds_rangeEnd hr ▸ hr.mono hexact (rangeEnd_le_scaled hpos hhigh)
      exact_mod_cast this
    · simp only [hc, hlow, hhigh, decide_false, Bool.or_false, Bool.false_eq_true, if_false]
      rw [hnum]
      exact nearest_ofUnits _ _ (Nat.pow_pos (n := (-e).toNat) (by decide : 0 < 10))

theorem rounds_units (m : Magnitude) : FloatFormat.units.Rounds m.units m.units := by
  obtain ⟨k, s, hk, hs⟩ := m.significant
  have hval : (m.units : ℚ) = k * (FloatFormat.units.base : ℚ) ^ (s : ℤ) := by
    rw [hs, zpow_natCast, Nat.pow_eq]
    push_cast
    rfl
  have hr := nearestUnits_one_rounds m.units
  have hexact := (hval ▸ hr).eq_of_exact hk (FloatFormat.units_allows s)
  rwa [hexact, ← hval] at hr

theorem Nearest.eq_of_rounds {a : Bool} {q : ℚ} {m : Magnitude} {x : Binary64}
    (h : Nearest a q x) (hm : FloatFormat.units.Rounds q m.units) : x = finite a m := by
  cases h with
  | within n hn =>
    have hu : n.units = m.units := by exact_mod_cast hn.unique hm
    rw [Magnitude.ext hu]
  | beyond u hu hr =>
    have hlt : u = m.units := by exact_mod_cast hu.unique hm
    exact absurd m.lt_rangeEnd (by omega)

theorem Nearest.unique {a : Bool} {q : ℚ} {x y : Binary64} (h : Nearest a q x)
    (h' : Nearest a q y) : x = y := by
  cases h' with
  | within n hn => exact h.eq_of_rounds hn
  | beyond u hu hr =>
    cases h with
    | within m hm => exact (Nearest.eq_of_rounds (.beyond u hu hr) hm).symm
    | beyond _ _ _ => rfl

theorem Nearest.eq_finite {a : Bool} {m : Magnitude} {x : Binary64} (h : Nearest a m.units x) :
    x = finite a m := h.eq_of_rounds (rounds_units m)

theorem nearest_ofInt {n : ℤ} {x : Binary64} (h : ofInt? n = some x) :
    Nearest (decide (n < 0)) (n.natAbs * unit) x := by
  obtain ⟨m, hm, rfl⟩ := Option.map_eq_some_iff.mp h
  have hr := nearestUnits_one_rounds (n.natAbs * unit)
  rw [Nat.cast_mul] at hr
  unfold Magnitude.nearest? at hm
  split at hm
  · cases hm
    exact .within _ hr
  · cases hm

theorem signed_abs {q : ℚ} {negative : Bool} (h : q ≠ 0 → negative = decide (q < 0)) :
    signed negative |q| = q := by
  rcases eq_or_ne q 0 with rfl | hq
  · cases negative <;> simp [signed]
  · rw [h hq]
    rcases lt_or_gt_of_ne hq with hlt | hgt
    · simp [signed, hlt, abs_of_neg]
    · simp [signed, not_lt.mpr hgt.le, abs_of_pos hgt]

theorem nearest_add (a b : Bool) (m n : Magnitude) :
    ∃ negative, Nearest negative |((signedUnits a m + signedUnits b n : ℤ) : ℚ)|
        (add (finite a m) (finite b n)) ∧
      signed negative |((signedUnits a m + signedUnits b n : ℤ) : ℚ)| =
        (signedUnits a m + signedUnits b n : ℤ) := by
  simp only [add]
  generalize signedUnits a m + signedUnits b n = sum
  by_cases hz : sum = 0
  · refine ⟨a && b, ?_, by simp [hz, signed]⟩
    rw [if_pos hz, hz]
    exact .within .zero (by simpa using rounds_zero_of_small le_rfl (by norm_num))
  · refine ⟨decide (sum < 0), ?_, signed_abs fun _ => by simp⟩
    rw [if_neg hz, ← Int.cast_abs, Int.abs_eq_natAbs, Int.cast_natCast]
    simpa using nearest_ofUnits (decide (sum < 0)) sum.natAbs Nat.one_pos

def IsFinite (x : Binary64) : Prop := ∃ a m, x = finite a m

theorem add_ne_nan {x y : Binary64} (hx : x ≠ nan) (hy : y.IsFinite) : add x y ≠ nan := by
  obtain ⟨b, n, rfl⟩ := hy
  rcases x with _ | c | ⟨a, m⟩
  · exact absurd rfl hx
  · simp [add]
  · obtain ⟨_, h, _⟩ := nearest_add a b m n
    exact h.ne_nan

theorem add_le_add {x x' y y' : Binary64} (hx : x ≤ x') (hy : y ≤ y') (hf : y.IsFinite)
    (hf' : y'.IsFinite) : add x y ≤ add x' y' := by
  obtain ⟨b, n, rfl⟩ := hf
  obtain ⟨b', n', rfl⟩ := hf'
  rcases x with _ | (_ | _) | ⟨a, m⟩
  · simp at hx
  · rcases x' with _ | (_ | _) | ⟨a', m'⟩ <;> simp_all [add]
  · have hx' : x' ≠ nan := by simpa using hx
    simpa [add] using add_ne_nan hx' ⟨b', n', rfl⟩
  rcases x' with _ | (_ | _) | ⟨a', m'⟩
  · simp at hx
  · simpa [add] using add_ne_nan (x := finite a m) (by simp) ⟨b, n, rfl⟩
  · simp at hx
  obtain ⟨s, hs, hq⟩ := nearest_add a b m n
  obtain ⟨s', hs', hq'⟩ := nearest_add a' b' m' n'
  refine hs.le hs' (abs_nonneg _) (abs_nonneg _) ?_
  rw [hq, hq']
  simp only [finite_le_finite] at hx hy
  exact_mod_cast Int.add_le_add hx hy

theorem le_add_zero {x : Binary64} (h : x ≠ nan) : x ≤ add x (zero false) := by
  rcases x with _ | a | ⟨a, m⟩
  · exact absurd rfl h
  · exact le_refl h
  · obtain ⟨s, hs, hq⟩ := nearest_add a false m .zero
    have hself : Nearest a m.units (finite a m) := .within m (rounds_units m)
    refine hself.le hs m.units.cast_nonneg (abs_nonneg _) ?_
    rw [hq]
    cases a <;> simp [signed, signedUnits, Magnitude.zero]

theorem le_add_of_nonneg {x y z : Binary64} (h : x ≤ y) (hz : zero false ≤ z) (hf : z.IsFinite) :
    x ≤ add y z := by
  have hx : x ≠ nan := by
    rintro rfl
    exact not_nan_le h
  exact le_trans (le_add_zero hx) (add_le_add h hz ⟨_, _, rfl⟩ hf)

end Binary64

end ExamAdmission
