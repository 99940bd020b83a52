import ExamAdmission.Proofs.Arithmetic.RelativeError

/-! The search for the shortest digits. It starts above the double, and on the first grid with a hit
it takes the multiple nearest to the double whenever that one reads back. -/

namespace ExamAdmission

attribute [local irreducible] rangeEnd Binary64.unit

section Powers

variable {p c : ℤ}

theorem zpow_le_zpow_of_mul {a b : ℚ} {n : ℕ} (ha : 0 < a) (hb : 0 < b) (hn : n ≠ 0)
    (h : a ^ (n * p) ≤ b ^ (n * c)) : a ^ p ≤ b ^ c := by
  rw [mul_comm, zpow_mul, mul_comm, zpow_mul, zpow_natCast, zpow_natCast] at h
  exact (pow_le_pow_iff_left₀ (zpow_pos ha p).le (zpow_pos hb c).le hn).mp h

theorem zpow_le_zpow_left_of_nonpos {a b : ℚ} (ha : 0 < a) (hab : a ≤ b) (hp : p ≤ 0) :
    b ^ p ≤ a ^ p := by
  obtain ⟨n, rfl⟩ := Int.exists_eq_neg_ofNat hp
  rw [zpow_neg, zpow_neg, zpow_natCast, zpow_natCast]
  exact inv_anti₀ (pow_pos ha n) (pow_le_pow_left₀ ha.le hab n)

/-- 2^13 is less than 10^4, and 10^3 less than 2^10. -/
theorem two_zpow_le_ten_zpow (h : 4 * p ≤ 13 * c) (h' : 3 * p ≤ 10 * c) :
    (2 : ℚ) ^ p ≤ 10 ^ c := by
  rcases Int.le_total 0 p with hp | hp
  · refine zpow_le_zpow_of_mul (n := 13) (by norm_num) (by norm_num) (by decide) ?_
    calc (2 : ℚ) ^ ((13 : ℕ) * p)
      _ = (2 ^ 13) ^ p := by rw [zpow_mul]; norm_num
      _ ≤ (10 ^ 4) ^ p := zpow_le_zpow_left₀ hp (by norm_num) (by norm_num)
      _ = 10 ^ (4 * p) := by rw [zpow_mul]; norm_num
      _ ≤ 10 ^ ((13 : ℕ) * c) := ten_zpow_le h
  · refine zpow_le_zpow_of_mul (n := 10) (by norm_num) (by norm_num) (by decide) ?_
    calc (2 : ℚ) ^ ((10 : ℕ) * p)
      _ = (2 ^ 10) ^ p := by rw [zpow_mul]; norm_num
      _ ≤ (10 ^ 3) ^ p := zpow_le_zpow_left_of_nonpos (by norm_num) (by norm_num) hp
      _ = 10 ^ (3 * p) := by rw [zpow_mul]; norm_num
      _ ≤ 10 ^ ((10 : ℕ) * c) := ten_zpow_le h'

theorem ten_zpow_le_two_zpow (h : 13 * c ≤ 4 * p) (h' : 10 * c ≤ 3 * p) :
    (10 : ℚ) ^ c ≤ 2 ^ p := by
  have htwo : ∀ {j k : ℤ}, j ≤ k → (2 : ℚ) ^ j ≤ 2 ^ k := fun hjk =>
    zpow_le_zpow_right₀ (by norm_num) hjk
  rcases Int.le_total 0 c with hc | hc
  · refine zpow_le_zpow_of_mul (n := 3) (by norm_num) (by norm_num) (by decide) ?_
    calc (10 : ℚ) ^ ((3 : ℕ) * c)
      _ = (10 ^ 3) ^ c := by rw [zpow_mul]; norm_num
      _ ≤ (2 ^ 10) ^ c := zpow_le_zpow_left₀ hc (by norm_num) (by norm_num)
      _ = 2 ^ (10 * c) := by rw [zpow_mul]; norm_num
      _ ≤ 2 ^ ((3 : ℕ) * p) := htwo h'
  · refine zpow_le_zpow_of_mul (n := 4) (by norm_num) (by norm_num) (by decide) ?_
    calc (10 : ℚ) ^ ((4 : ℕ) * c)
      _ = (10 ^ 4) ^ c := by rw [zpow_mul]; norm_num
      _ ≤ (2 ^ 13) ^ c := zpow_le_zpow_left_of_nonpos (by norm_num) (by norm_num) hc
      _ = 2 ^ (13 * c) := by rw [zpow_mul]; norm_num
      _ ≤ 2 ^ ((4 : ℕ) * p) := htwo h

end Powers

theorem scaled_eq_of_abs_sub_lt {b c : ℕ} {e z : ℤ} {g : ℚ} (hze : z ≤ e) (hg : 0 < g)
    (h : |(c : ℚ) * 10 ^ e * g - b * 10 ^ z * g| < 10 ^ z * g) :
    (c : ℚ) * 10 ^ e = b * 10 ^ z := by
  obtain ⟨i, rfl⟩ := Int.le.dest hze
  have hsplit : (c : ℚ) * 10 ^ (z + i) = (c * 10 ^ i : ℕ) * 10 ^ z := by
    rw [ten_zpow_add, zpow_natCast]
    push_cast
    ring
  have hgrid := mul_pos (ten_zpow_pos z) hg
  rw [hsplit, mul_assoc, mul_assoc, ← sub_mul, abs_mul, abs_of_pos hgrid,
    mul_lt_iff_lt_one_left hgrid, abs_lt] at h
  have hlow : (b : ℚ) < (c * 10 ^ i : ℕ) + 1 := by linarith [h.1]
  have hhigh : ((c * 10 ^ i : ℕ) : ℚ) < b + 1 := by linarith [h.2]
  have heq : c * 10 ^ i = b :=
    Nat.le_antisymm (Nat.lt_succ_iff.mp (by exact_mod_cast hhigh))
      (Nat.lt_succ_iff.mp (by exact_mod_cast hlow))
  rw [hsplit, heq]

namespace Direction

theorem rounds_halfEven_of_abs_sub_lt {q step : ℚ} {n : ℕ} (hstep : 0 < step)
    (h : |q - n * step| < step / 2) : Direction.halfEven.Rounds (q / step) n := by
  have hscale : q / step - n = (q - n * step) / step := by
    rw [sub_div, mul_div_cancel_right₀ _ hstep.ne']
  have hnear : |q / step - n| < 1 / 2 := by
    rw [hscale, abs_div, abs_of_pos hstep, div_lt_iff₀ hstep]
    linarith
  obtain ⟨hlow, hhigh⟩ := abs_lt.mp hnear
  refine ⟨by linarith, by linarith, ?_⟩
  rintro (htie | htie) <;> linarith

end Direction

namespace Magnitude

variable {m : Magnitude} {c : ℕ} {e z : ℤ}

theorem readsBack_iff :
    m.readsBack c e = true ↔ FloatFormat.units.Rounds (c * 10 ^ e * Binary64.unit) m.units := by
  refine ⟨rounds_of_readsBack, fun h => ?_⟩
  exact decide_eq_true ((Binary64.nearest_ofDecimal false c e).eq_of_rounds h)

/-- The multiple of 10^e nearest to a magnitude. -/
def nearestOn (m : Magnitude) (e : ℤ) : ℕ :=
  Direction.halfEven.quotient (m.units * Nat.pow 10 (-e).toNat)
    (Binary64.unit * Nat.pow 10 e.toNat)

theorem rounds_quotient_grid (d : Direction) (m : Magnitude) (e : ℤ) :
    d.Rounds (m.units / (10 ^ e * Binary64.unit))
      (d.quotient (m.units * Nat.pow 10 (-e).toNat) (Binary64.unit * Nat.pow 10 e.toNat)) := by
  have hunit := Binary64.unit_pos
  have hden : 0 < Binary64.unit * Nat.pow 10 e.toNat :=
    Nat.mul_pos (by exact_mod_cast hunit) (Nat.pow_pos (by decide))
  have hquotient := d.rounds_quotient (m.units * Nat.pow 10 (-e).toNat) hden
  have hpow : ((Nat.pow 10 (-e).toNat : ℕ) : ℚ) ≠ 0 := by
    exact_mod_cast (Nat.pow_pos (n := (-e).toNat) (by decide : 0 < 10)).ne'
  rwa [show ((m.units * Nat.pow 10 (-e).toNat : ℕ) : ℚ) /
      (Binary64.unit * Nat.pow 10 e.toNat : ℕ) = m.units / (10 ^ e * Binary64.unit) by
    rw [ten_zpow_eq_div]
    push_cast
    field_simp] at hquotient

theorem rounds_nearestOn (m : Magnitude) (e : ℤ) :
    Direction.halfEven.Rounds (m.units / (10 ^ e * Binary64.unit)) (m.nearestOn e) :=
  rounds_quotient_grid .halfEven m e

theorem onGrid?_of_nearestOn (h : m.readsBack (m.nearestOn e) e = true) :
    m.onGrid? e = some (m.nearestOn e) := by
  have hle := Direction.quotient_le .halfEven (m.units * Nat.pow 10 (-e).toNat)
    (Binary64.unit * Nat.pow 10 e.toNat)
  have hge := Direction.le_quotient .halfEven (m.units * Nat.pow 10 (-e).toNat)
    (Binary64.unit * Nat.pow 10 e.toNat)
  unfold onGrid? nearestOn at *
  dsimp only
  -- it is one of the two neighbours, and the other one is taken only if it reads back alone
  rcases Nat.eq_or_lt_of_le hge with heq | hlt
  · rw [heq, h]
    cases m.readsBack _ e <;> rfl
  · rw [← Nat.le_antisymm hle hlt, h]
    cases m.readsBack _ e <;> rfl

theorem cast_two_pow {n s : ℕ} (h : n = Nat.pow 2 s) : (n : ℚ) = 2 ^ (s : ℤ) := by
  rw [h]
  simp

theorem unit_eq_zpow : (Binary64.unit : ℚ) = 2 ^ ((1074 : ℕ) : ℤ) := by
  have h := cast_two_pow Binary64.unit_eq
  exact h

theorem units_lt_coarsest (m : Magnitude) :
    (m.units : ℚ) < 10 ^ m.coarsest * Binary64.unit := by
  have hlog : (m.units : ℚ) < 2 ^ ((m.units.log2 : ℤ) - 1073) * Binary64.unit := by
    rw [unit_eq_zpow, ← zpow_add₀ (by norm_num)]
    have hlt : m.units < 2 ^ (m.units.log2 + 1) := Nat.lt_log2_self
    have hplaces : (m.units.log2 : ℤ) - 1073 + (1074 : ℕ) = (m.units.log2 + 1 : ℕ) := by
      push_cast
      ring
    rw [hplaces, zpow_natCast]
    exact_mod_cast hlt
  refine hlog.trans_le (mul_le_mul_of_nonneg_right (two_zpow_le_ten_zpow ?_ ?_)
    Binary64.unit_pos.le)
  all_goals
    unfold coarsest
    dsimp only
    split <;> omega

theorem log2_lt_of_lt_pow {n k s : ℕ} (hn : n ≠ 0) (h : n < k) (hk : k = Nat.pow 2 s) :
    n.log2 < s := (Nat.log2_lt hn).mpr (h.trans_eq hk)

end Magnitude

end ExamAdmission
