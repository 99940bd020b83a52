import ExamAdmission.Proofs.Arithmetic.DigitSearch

/-! The fewest digits. Whatever reads back to a double stands on the grid of its shortest digits or
on a finer one: the search begins above the double, passes no grid with a hit, and comes to one
within 27 steps. -/

namespace ExamAdmission

attribute [local irreducible] rangeEnd Binary64.unit

theorem exists_rounds_scaled (c : ℕ) (e : ℤ) :
    ∃ u : ℕ, FloatFormat.units.Rounds (c * 10 ^ e * Binary64.unit) u := by
  have hnear := Binary64.nearest_ofDecimal false c e
  generalize Binary64.ofDecimal false c e = x at hnear
  cases hnear with
  | within m h => exact ⟨m.units, h⟩
  | beyond u h _ => exact ⟨u, h⟩

namespace Magnitude

variable {m : Magnitude} {b c : ℕ} {e z : ℤ}

theorem decimal_shortest (a : Bool) (hm : m.units ≠ 0) :
    Decimal.ofBinary64 (.finite a m) = .finite a m.shortest.1 m.shortest.2 := if_neg hm

/-- The last multiple of 10^e that is not above a magnitude. -/
def below (m : Magnitude) (e : ℤ) : ℕ :=
  m.units * Nat.pow 10 (-e).toNat / (Binary64.unit * Nat.pow 10 e.toNat)

theorem below_bounds (m : Magnitude) (e : ℤ) :
    (m.below e : ℚ) * 10 ^ e * Binary64.unit ≤ m.units ∧
      (m.units : ℚ) < (m.below e + 1 : ℕ) * 10 ^ e * Binary64.unit := by
  have hgrid : 0 < (10 : ℚ) ^ e * Binary64.unit := mul_pos (ten_zpow_pos e) Binary64.unit_pos
  obtain ⟨hlow, hhigh⟩ := rounds_quotient_grid .down m e
  constructor
  · rw [mul_assoc]
    exact (le_div_iff₀ hgrid).mp hlow
  · rw [mul_assoc, Nat.cast_succ]
    exact (div_lt_iff₀ hgrid).mp hhigh

theorem onGrid?_ne_none_iff : m.onGrid? e ≠ none ↔
    m.readsBack (m.below e) e = true ∨ m.readsBack (m.below e + 1) e = true := by
  unfold onGrid?
  dsimp only
  split <;> rename_i hlow hhigh
  · exact iff_of_true (Option.some_ne_none _) (.inl hlow)
  · exact iff_of_true (Option.some_ne_none _) (.inl hlow)
  · exact iff_of_true (Option.some_ne_none _) (.inr hhigh)
  · exact iff_of_false (not_not_intro rfl) fun h =>
      h.elim (Bool.eq_false_iff.mp hlow) (Bool.eq_false_iff.mp hhigh)

theorem readsBack_of_between {q q' : ℚ} (h : FloatFormat.units.Rounds q m.units)
    (h' : FloatFormat.units.Rounds q' m.units) (hlow : q ≤ c * 10 ^ e * Binary64.unit)
    (hhigh : c * 10 ^ e * Binary64.unit ≤ q') : m.readsBack c e = true := by
  obtain ⟨u, hu⟩ := exists_rounds_scaled c e
  rw [readsBack_iff, le_antisymm (h.mono hu hlow) (hu.mono h' hhigh)]
  exact hu

theorem onGrid?_ne_none_of_readsBack (h : m.readsBack b e = true) : m.onGrid? e ≠ none := by
  have hself := Binary64.rounds_units m
  have hpoint := rounds_of_readsBack h
  obtain ⟨hlow, hhigh⟩ := m.below_bounds e
  have hscale : ∀ {i j : ℕ}, i ≤ j →
      (i : ℚ) * 10 ^ e * Binary64.unit ≤ j * 10 ^ e * Binary64.unit := fun hij =>
    mul_le_mul_of_nonneg_right
      (mul_le_mul_of_nonneg_right (by exact_mod_cast hij) (ten_zpow_pos e).le)
      Binary64.unit_pos.le
  rw [onGrid?_ne_none_iff]
  rcases Nat.lt_or_ge (m.below e) b with hb | hb
  · exact .inr (readsBack_of_between hself hpoint hhigh.le (hscale hb))
  · exact .inl (readsBack_of_between hpoint hself (hscale hb) hlow)

theorem readsBack_above {k : ℤ} {n : ℕ} (h : FloatFormat.units.RoundsAt k n m.units)
    (hvalue : (m.units : ℚ) = n * (FloatFormat.units.base : ℚ) ^ k)
    (hfine : 10 ^ e * Binary64.unit < (FloatFormat.units.base : ℚ) ^ k / 2) :
    m.readsBack (m.below e + 1) e = true := by
  have hpos := FloatFormat.units.zpow_base_pos k
  obtain ⟨hlow, hhigh⟩ := m.below_bounds e
  have hstep : ((m.below e + 1 : ℕ) : ℚ) * 10 ^ e * Binary64.unit <
      m.units + (FloatFormat.units.base : ℚ) ^ k / 2 := by
    push_cast
    linarith
  have hlast : m.units + (FloatFormat.units.base : ℚ) ^ k ≤
      (FloatFormat.units.base : ℚ) ^ (FloatFormat.units.precision + k) := by
    have hn := h.upper
    rw [FloatFormat.zpow_base_add, hvalue] at hn ⊢
    have hlt : n + 1 ≤ FloatFormat.units.base ^ FloatFormat.units.precision := by
      exact_mod_cast lt_of_mul_lt_mul_right hn hpos.le
    rw [← add_one_mul]
    exact mul_le_mul_of_nonneg_right (by exact_mod_cast hlt) hpos.le
  rw [readsBack_iff]
  refine .inr ⟨k, n, ⟨?_, by linarith, h.lower.imp_right fun hl => hl.trans hhigh.le, h.allowed⟩,
    hvalue⟩
  refine Direction.rounds_halfEven_of_abs_sub_lt hpos ?_
  rw [← hvalue, abs_of_pos (sub_pos.mpr hhigh)]
  linarith

theorem coarsest_le_of_small (h : m.units < 2 ^ 53) : m.coarsest ≤ -306 := by
  have hlog : m.units.log2 < 53 := by
    rcases Nat.eq_zero_or_pos m.units with hz | hpos
    · rw [hz]
      decide
    · exact (Nat.log2_lt hpos.ne').mpr h
  unfold coarsest
  dsimp only
  split <;> omega

theorem coarsest_le_units (h : 2 ^ 52 ≤ m.units) :
    (10 : ℚ) ^ (m.coarsest - 26) * Binary64.unit ≤ m.units / 2 ^ 54 := by
  have hpos : m.units ≠ 0 := by omega
  have hstart : 52 ≤ m.units.log2 := (Nat.le_log2 hpos).mpr h
  have hend := log2_lt_of_lt_pow hpos m.lt_rangeEnd rangeEnd_eq
  have hlog : (2 : ℚ) ^ ((m.units.log2 : ℤ) - 1128) * Binary64.unit ≤ m.units / 2 ^ 54 := by
    rw [unit_eq_zpow, ← zpow_add₀ (by norm_num), le_div_iff₀ (by norm_num)]
    have hle : 2 ^ m.units.log2 ≤ m.units := Nat.log2_self_le hpos
    calc (2 : ℚ) ^ ((m.units.log2 : ℤ) - 1128 + (1074 : ℕ)) * 2 ^ 54
      _ = 2 ^ m.units.log2 := by
        rw [← zpow_natCast, ← zpow_natCast, ← zpow_add₀ (by norm_num)]
        congr 1
        push_cast
        ring
      _ ≤ m.units := by exact_mod_cast hle
  refine (mul_le_mul_of_nonneg_right (ten_zpow_le_two_zpow ?_ ?_) Binary64.unit_pos.le).trans hlog
  all_goals
    unfold coarsest
    dsimp only
    split <;> omega

theorem onGrid?_finest_ne_none (hm : m.units ≠ 0) : m.onGrid? (m.coarsest - 26) ≠ none := by
  rcases Binary64.rounds_units m with ⟨hzero, -⟩ | ⟨k, n, h, hvalue⟩
  · exact absurd (Nat.cast_eq_zero.mp hzero) hm
  refine onGrid?_ne_none_iff.mpr (.inr (readsBack_above h hvalue ?_))
  obtain ⟨s, rfl⟩ := Int.eq_ofNat_of_zero_le (h.allowed 0 rfl)
  have hupper := h.upper
  have hend : ((FloatFormat.units.base ^ FloatFormat.units.precision : ℕ) : ℚ) = 2 ^ 53 := by
    norm_num [FloatFormat.units]
  rw [FloatFormat.zpow_base_add, hend] at hupper
  rcases Nat.lt_or_ge m.units (2 ^ 53) with hsmall | hlarge
  · -- the grid is finer than half of the least double
    have hone : (1 : ℚ) ≤ (FloatFormat.units.base : ℚ) ^ (s : ℤ) :=
      one_le_zpow₀ FloatFormat.units.one_le_base (Int.natCast_nonneg s)
    have hgrid : (10 : ℚ) ^ (m.coarsest - 26) * Binary64.unit ≤ 10 ^ (-332 : ℤ) * 10 ^ (324 : ℤ) :=
      mul_le_mul (ten_zpow_le (by linarith [coarsest_le_of_small hsmall])) Binary64.unit_lt.le
        Binary64.unit_pos.le (ten_zpow_pos _).le
    rw [← ten_zpow_add] at hgrid
    refine hgrid.trans_lt (lt_of_lt_of_le (by norm_num : _ < (1 : ℚ) / 2) ?_)
    linarith
  · refine (coarsest_le_units (by omega)).trans_lt ?_
    rw [div_lt_iff₀ (by norm_num)]
    linarith

theorem search_of_hit (hhit : m.onGrid? z ≠ none) (steps : ℕ) (hstart : z ≤ e)
    (hsteps : e - z < steps) : z ≤ (m.search steps e).2 ∧
      m.onGrid? (m.search steps e).2 = some (m.search steps e).1 := by
  induction steps generalizing e with
  | zero =>
    rw [Nat.cast_zero] at hsteps
    omega
  | succ steps ih =>
    cases hgrid : m.onGrid? e with
    | some c =>
      rw [search, hgrid]
      exact ⟨hstart, hgrid⟩
    | none =>
      have hne : e ≠ z := by
        rintro rfl
        exact hhit hgrid
      rw [search, hgrid]
      exact ih (by omega) (by push_cast at hsteps; omega)

theorem coarsest_le_shortest (hm : m.units ≠ 0) : m.coarsest - 26 ≤ m.shortest.2 :=
  (search_of_hit (onGrid?_finest_ne_none hm) 30 (by omega) (by omega)).1

theorem onGrid?_shortest (hm : m.units ≠ 0) : m.onGrid? m.shortest.2 = some m.shortest.1 :=
  (search_of_hit (onGrid?_finest_ne_none hm) 30 (by omega) (by omega)).2

theorem le_coarsest_of_readsBack (hm : m.units ≠ 0) (h : m.readsBack b e = true) :
    e ≤ m.coarsest := by
  have hunit := Binary64.unit_pos
  have hpos : (0 : ℚ) < m.units := by exact_mod_cast Nat.pos_of_ne_zero hm
  have hround := rounds_of_readsBack h
  obtain ⟨hlow, hhigh⟩ := hround.le_and_le hpos
  have hb : (1 : ℚ) ≤ b := by exact_mod_cast pos_of_rounds hm hround
  by_contra hlt
  have hpow : (10 : ℚ) ^ (m.coarsest + 1) ≤ b * 10 ^ e :=
    (ten_zpow_le (by omega)).trans (le_mul_of_one_le_left (ten_zpow_pos e).le hb)
  have hscale := mul_le_mul_of_nonneg_right hpow hunit.le
  rw [ten_zpow_add, zpow_one] at hscale
  linarith [m.units_lt_coarsest]

/-- No decimal on a coarser grid reads back to the double. -/
theorem le_shortest (hm : m.units ≠ 0) (h : m.readsBack b e = true) : e ≤ m.shortest.2 := by
  rcases Int.le_total e (m.coarsest - 26) with hfar | hnear
  · exact hfar.trans (coarsest_le_shortest hm)
  · exact (search_of_hit (onGrid?_ne_none_of_readsBack h) 30
      (le_coarsest_of_readsBack hm h) (by push_cast; omega)).1

theorem shortest_lt (hm : m.units ≠ 0) : m.shortest.1 < 10 ^ 27 := by
  have hunit := Binary64.unit_pos
  have hpos : (0 : ℚ) < m.units := by exact_mod_cast Nat.pos_of_ne_zero hm
  obtain ⟨-, hhigh⟩ := (rounds_of_readsBack m.readsBack_shortest).le_and_le hpos
  have hgrid : 0 < (10 : ℚ) ^ m.shortest.2 * Binary64.unit := mul_pos (ten_zpow_pos _) hunit
  have hstart : (10 : ℚ) ^ m.coarsest * Binary64.unit ≤
      10 ^ 26 * (10 ^ m.shortest.2 * Binary64.unit) := by
    have hle := ten_zpow_le (show m.coarsest ≤ 26 + m.shortest.2 by
      linarith [coarsest_le_shortest hm])
    rw [ten_zpow_add, zpow_ofNat] at hle
    rw [← mul_assoc]
    exact mul_le_mul_of_nonneg_right hle hunit.le
  have hdigits : (m.shortest.1 : ℚ) * (10 ^ m.shortest.2 * Binary64.unit) <
      10 ^ 27 * (10 ^ m.shortest.2 * Binary64.unit) := by
    rw [← mul_assoc]
    linarith [m.units_lt_coarsest]
  exact_mod_cast lt_of_mul_lt_mul_right hdigits hgrid.le

theorem exists_digits (m : Magnitude) :
    ∃ c e, (∀ a, Decimal.ofBinary64 (.finite a m) = .finite a c e) ∧ c < 10 ^ 27 := by
  by_cases hm : m.units = 0
  · exact ⟨0, 0, fun _ => if_pos hm, by norm_num⟩
  · exact ⟨_, _, fun a => decimal_shortest a hm, shortest_lt hm⟩

end Magnitude

end ExamAdmission
