import ExamAdmission.Proofs.Arithmetic.ReadingBack

/-! How far a rounded number is from the exact one: half a unit of the last digit that is kept,
which is a small part of the number itself, and after any number of roundings that a list of points can
come to still less than a third of it. -/

namespace ExamAdmission

attribute [local irreducible] rangeEnd Binary64.unit

namespace FloatFormat

variable {f : FloatFormat} {q r : ℚ} {k : ℤ} {n : ℕ}

theorem halfEven_abs_sub_le (h : Direction.halfEven.Rounds q n) : |q - n| ≤ 1 / 2 := by
  obtain ⟨hlow, hhigh, -⟩ := h
  rw [abs_le]
  constructor <;> linarith

theorem RoundsAt.abs_sub_le (h : f.RoundsAt k n q) :
    |q - n * f.base ^ k| ≤ (f.base : ℚ) ^ k / 2 := by
  have hpos := f.zpow_base_pos k
  have hgrid : q - n * f.base ^ k = (q / f.base ^ k - n) * f.base ^ k := by
    rw [sub_mul, div_mul_cancel₀ _ hpos.ne']
  rw [hgrid, abs_mul, abs_of_pos hpos]
  calc |q / f.base ^ k - n| * (f.base : ℚ) ^ k
    _ ≤ 1 / 2 * (f.base : ℚ) ^ k :=
      mul_le_mul_of_nonneg_right (halfEven_abs_sub_le h.rounds) hpos.le
    _ = (f.base : ℚ) ^ k / 2 := by ring

/-- The relative error of numbers that are not below the finest grid. -/
theorem Rounds.abs_sub_le (h : f.Rounds q r)
    (hfine : ∀ l ∈ f.least, ∃ m : ℕ, q = m * (f.base : ℚ) ^ l) :
    |q - r| ≤ q * (f.base : ℚ) ^ (1 - f.precision : ℤ) := by
  rcases h with ⟨rfl, rfl⟩ | ⟨k, n, h, rfl⟩
  · simp
  rcases h.lower with hl | hl
  · -- on the finest grid nothing is lost
    obtain ⟨m, hm⟩ := hfine k hl
    have hpos := f.zpow_base_pos k
    have hr := h.rounds
    rw [hm, mul_div_cancel_right₀ _ hpos.ne'] at hr
    rw [hr.eq_natCast, hm, sub_self, abs_zero]
    have hexp := f.zpow_base_pos (1 - f.precision : ℤ)
    positivity
  · have hexp := f.zpow_base_pos (1 - f.precision : ℤ)
    calc |q - n * f.base ^ k|
      _ ≤ (f.base : ℚ) ^ k / 2 := h.abs_sub_le
      _ ≤ (f.base : ℚ) ^ k := by linarith [f.zpow_base_pos k]
      _ = (f.base : ℚ) ^ (f.precision - 1 + k) * f.base ^ (1 - f.precision : ℤ) := by
        rw [← zpow_add₀ f.base_pos.ne']
        congr 1
        ring
      _ ≤ q * (f.base : ℚ) ^ (1 - f.precision : ℤ) := mul_le_mul_of_nonneg_right hl hexp.le

theorem Rounds.le_and_le (h : f.Rounds q r) (hr : 0 < r) : r / 2 ≤ q ∧ q ≤ 3 / 2 * r := by
  rcases h with ⟨_, rfl⟩ | ⟨k, n, h, rfl⟩
  · exact absurd hr (lt_irrefl 0)
  have hpos := f.zpow_base_pos k
  have hn : 1 ≤ (n : ℚ) := by
    have hn' : n ≠ 0 := by
      rintro rfl
      simp at hr
    exact_mod_cast Nat.one_le_iff_ne_zero.mpr hn'
  have hgrid : (f.base : ℚ) ^ k ≤ n * f.base ^ k := le_mul_of_one_le_left hpos.le hn
  have herr := abs_le.mp h.abs_sub_le
  constructor <;> linarith [herr.1, herr.2]

theorem decimals_abs_sub_le (h : decimals.Rounds q r) : |q - r| ≤ q / 10 ^ 27 := by
  have herr := h.abs_sub_le (by simp [decimals])
  rwa [show (decimals.base : ℚ) ^ (1 - decimals.precision : ℤ) = (10 ^ 27)⁻¹ from by
    norm_num [decimals], ← div_eq_mul_inv] at herr

theorem units_abs_sub_le {m : ℕ} (h : units.Rounds m r) : |m - r| ≤ m / 2 ^ 52 := by
  have herr := h.abs_sub_le (by
    intro l hl
    obtain rfl : 0 = l := Option.some.inj hl
    exact ⟨m, by simp⟩)
  rwa [show (units.base : ℚ) ^ (1 - units.precision : ℤ) = (2 ^ 52)⁻¹ from by
    norm_num [units], ← div_eq_mul_inv] at herr

/-- With all of its 53 digits a double has half of that error. -/
theorem units_abs_sub_le_of_le (h : units.Rounds q r) (hq : 2 ^ 52 ≤ q) : |q - r| ≤ q / 2 ^ 53 := by
  rcases h with ⟨rfl, -⟩ | ⟨k, n, h, rfl⟩
  · norm_num at hq
  have hgrid : 2 ^ 52 * (units.base : ℚ) ^ k ≤ q := by
    rcases h.lower with hl | hl
    · obtain rfl : 0 = k := Option.some.inj hl
      simpa using hq
    · rwa [precision_pred, zpow_base_add, Nat.cast_pow] at hl
  calc |q - n * (units.base : ℚ) ^ k|
    _ ≤ (units.base : ℚ) ^ k / 2 := h.abs_sub_le
    _ ≤ q / 2 ^ 53 := by linarith

end FloatFormat

/-- The range of doubles ends far above 10^28. -/
theorem Binary64.Nearest.exists_magnitude {a : Bool} {v : ℚ} {x : Binary64}
    (h : Nearest a (v * unit) x) (hv : v ≤ 10 ^ 28) :
    ∃ m, x = finite a m ∧ FloatFormat.units.Rounds (v * unit) m.units := by
  cases h with
  | within m hm => exact ⟨m, rfl, hm⟩
  | beyond u hu hend =>
    have hpos : (0 : ℚ) < u := by exact_mod_cast rangeEnd_pos.trans_le hend
    have hcast : (10 : ℚ) ^ 28 * unit * 2 < u := by
      exact_mod_cast unit_mul_lt_rangeEnd.trans_le hend
    linarith [(hu.le_and_le hpos).1, mul_le_mul_of_nonneg_right hv unit_pos.le]

namespace Binary64

def growth : ℚ := 1 + 1 / 2 ^ 52

def shrink : ℚ := 1 - 1 / 2 ^ 52

/-- A number of units that came from the exact one by so many roundings at most. -/
def Within (k exact m : ℕ) : Prop := exact * shrink ^ k ≤ m ∧ m ≤ exact * growth ^ k

theorem growth_pos : 0 < growth := by norm_num [growth]

theorem one_le_growth : 1 ≤ growth := by norm_num [growth]

theorem shrink_pos : 0 < shrink := by norm_num [shrink]

theorem shrink_le_one : shrink ≤ 1 := by norm_num [shrink]

theorem growth_pow_mul_shrink_pow_le (k : ℕ) : growth ^ k * shrink ^ k ≤ 1 := by
  rw [← mul_pow]
  refine pow_le_one₀ (mul_nonneg growth_pos.le shrink_pos.le) ?_
  norm_num [growth, shrink]

/-- Even a number of roundings that no list comes to leaves most of a sum. -/
theorem shrink_pow_ge {k : ℕ} (h : k ≤ 2 ^ 49 + 1) : 87 / 100 ≤ shrink ^ k := by
  have hk : (k : ℚ) ≤ 2 ^ 49 + 1 := by exact_mod_cast h
  calc (87 / 100 : ℚ)
    _ ≤ 1 + k * (-(1 / 2 ^ 52)) := by linarith
    _ ≤ (1 + -(1 / 2 ^ 52)) ^ k := one_add_mul_le_pow (by norm_num) k
    _ = shrink ^ k := by rw [shrink, sub_eq_add_neg]

theorem growth_pow_le {k : ℕ} (h : k ≤ 2 ^ 49 + 1) : 3 * growth ^ k ≤ 4 * shrink ^ k := by
  have hshrink := shrink_pow_ge h
  have hpos : 0 < shrink ^ k := pow_pos shrink_pos k
  refine le_of_mul_le_mul_right ?_ hpos
  calc 3 * growth ^ k * shrink ^ k
    _ ≤ 3 := by linarith [growth_pow_mul_shrink_pow_le k]
    _ ≤ 4 * (87 / 100 * (87 / 100)) := by norm_num
    _ ≤ 4 * (shrink ^ k * shrink ^ k) := by
      have hsquare := mul_le_mul hshrink hshrink (by norm_num) hpos.le
      linarith
    _ = 4 * shrink ^ k * shrink ^ k := by ring

theorem growth_pow_lt_two {k : ℕ} (h : k ≤ 2 ^ 49 + 1) : growth ^ k < 2 := by
  have hone := pow_le_one₀ shrink_pos.le shrink_le_one (n := k)
  linarith [growth_pow_le h]

namespace Within

variable {k l exact exact' m m' : ℕ}

theorem self (k m : ℕ) : Within k m m := by
  have hm : (0 : ℚ) ≤ m := m.cast_nonneg
  exact ⟨mul_le_of_le_one_right hm (pow_le_one₀ shrink_pos.le shrink_le_one),
    le_mul_of_one_le_right hm (one_le_pow₀ one_le_growth)⟩

theorem mono (h : Within k exact m) (hkl : k ≤ l) : Within l exact m := by
  have hexact : (0 : ℚ) ≤ exact := exact.cast_nonneg
  have hlow := pow_le_pow_of_le_one shrink_pos.le shrink_le_one hkl
  have hhigh := pow_le_pow_right₀ one_le_growth hkl
  exact ⟨(mul_le_mul_of_nonneg_left hlow hexact).trans h.1,
    h.2.trans (mul_le_mul_of_nonneg_left hhigh hexact)⟩

theorem add (h : Within k exact m) (h' : Within k exact' m') :
    Within k (exact + exact') (m + m') := by
  obtain ⟨hlow, hhigh⟩ := h
  obtain ⟨hlow', hhigh'⟩ := h'
  constructor
  · push_cast
    linarith
  · push_cast
    linarith

theorem round (h : Within k exact m) (hr : FloatFormat.units.Rounds m m') :
    Within (k + 1) exact m' := by
  obtain ⟨hlow, hhigh⟩ := h
  have herr := abs_le.mp (FloatFormat.units_abs_sub_le hr)
  have hself : m * shrink ≤ m' ∧ m' ≤ m * growth := by
    constructor
    · rw [shrink]
      linarith [herr.2]
    · rw [growth]
      linarith [herr.1]
  constructor
  · rw [pow_succ, ← mul_assoc]
    exact (mul_le_mul_of_nonneg_right hlow shrink_pos.le).trans hself.1
  · rw [pow_succ, ← mul_assoc]
    exact hself.2.trans (mul_le_mul_of_nonneg_right hhigh growth_pos.le)

theorem lt_rangeEnd (h : Within k exact m) (hk : k ≤ 2 ^ 49 + 1) (he : 2 * exact < rangeEnd) :
    m < rangeEnd := by
  have hdouble : (2 : ℚ) * exact < rangeEnd := by exact_mod_cast he
  have hgrowth := mul_le_mul_of_nonneg_left (growth_pow_lt_two hk).le
    (exact.cast_nonneg : (0 : ℚ) ≤ exact)
  have hlt : (m : ℚ) < rangeEnd := by linarith [h.2]
  exact_mod_cast hlt

theorem three_mul_le (h : Within k exact m) (h' : Within k exact' m') (hk : k ≤ 2 ^ 49 + 1)
    (hle : exact ≤ exact') : 3 * m ≤ 4 * m' := by
  have hcast : (exact : ℚ) ≤ exact' := by exact_mod_cast hle
  have hsum : (3 : ℚ) * m ≤ 4 * m' := by
    calc (3 : ℚ) * m
      _ ≤ exact * (3 * growth ^ k) := by linarith [h.2]
      _ ≤ exact * (4 * shrink ^ k) :=
        mul_le_mul_of_nonneg_left (growth_pow_le hk) exact.cast_nonneg
      _ ≤ exact' * (4 * shrink ^ k) :=
        mul_le_mul_of_nonneg_right hcast (by linarith [pow_pos shrink_pos k])
      _ ≤ 4 * m' := by linarith [h'.1]
  exact_mod_cast hsum

theorem pos (h : Within k exact m) (hexact : 0 < exact) : 0 < m := by
  have hlow : (0 : ℚ) < exact * shrink ^ k :=
    mul_pos (by exact_mod_cast hexact) (pow_pos shrink_pos k)
  exact_mod_cast hlow.trans_le h.1

end Within

end Binary64

end ExamAdmission
