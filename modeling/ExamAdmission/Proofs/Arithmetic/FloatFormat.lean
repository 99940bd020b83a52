import ExamAdmission.Arithmetic.Decimal
import ExamAdmission.Proofs.Arithmetic.Rounds

/-! Numbers of so many significant digits. A rational is rounded once, on the grid of the last
digit that it keeps; the grids of the two formats of the library are those of the doubles, with
a finest one, and of the decimals, without. -/

namespace ExamAdmission

/-- A rational with a sign of its own, as doubles and decimals have one. -/
def signed (negative : Bool) (q : ℚ) : ℚ := if negative then -q else q

theorem abs_signed {a : Bool} {q : ℚ} (h : 0 ≤ q) : |signed a q| = q := by
  cases a <;> simp [signed, abs_of_nonneg h]

theorem signed_mul (a : Bool) (q s : ℚ) : signed a q * s = signed a (q * s) := by
  cases a <;> simp [signed]

@[simp] theorem signed_zero (a : Bool) : signed a 0 = 0 := by
  cases a <;> simp [signed]

theorem signed_div (a b : Bool) (q s : ℚ) : signed a q / signed b s = signed (a != b) (q / s) := by
  cases a <;> cases b <;> simp [signed, neg_div, div_neg]

theorem eq_of_signed_eq {a b : Bool} {q : ℚ} (hq : 0 < q) (h : signed a q = signed b q) :
    a = b := by
  cases a <;> cases b <;> simp [signed] at h ⊢ <;> linarith

theorem signed_le_cases {a b : Bool} {q q' : ℚ} (h : 0 ≤ q) (h' : 0 ≤ q')
    (hle : signed a q ≤ signed b q') :
    (a = false ∧ b = false ∧ q ≤ q') ∨ (a = true ∧ b = true ∧ q' ≤ q) ∨
      (a = true ∧ b = false) ∨ (q = 0 ∧ q' = 0) := by
  cases a <;> cases b <;> simp [signed] at hle ⊢
  · exact .inl hle
  · constructor <;> linarith
  · exact .inl hle

theorem signed_neg_le {q q' : ℚ} (h : 0 ≤ q) (h' : 0 ≤ q') : signed true q ≤ signed false q' := by
  simp only [signed, if_true, Bool.false_eq_true, if_false]
  linarith

/-- Numbers m · base^k with m of at most `precision` digits, and k at least the least one. -/
structure FloatFormat where
  base : ℕ
  precision : ℕ
  least : Option ℤ
  one_lt_base : 1 < base
  precision_pos : 0 < precision

namespace FloatFormat

/-- Doubles, in units of 2^-1074. -/
def units : FloatFormat := ⟨2, 53, some 0, by decide, by decide⟩

/-- Decimals of 28 digits. -/
def decimals : FloatFormat := ⟨10, 28, none, by decide, by decide⟩

variable (f : FloatFormat)

/-- The multiple of base^k nearest to a rational that has just the digits of the format above
base^k. On the finest grid it may have fewer. -/
structure RoundsAt (k : ℤ) (n : ℕ) (q : ℚ) : Prop where
  rounds : Direction.halfEven.Rounds (q / f.base ^ k) n
  upper : q < f.base ^ (f.precision + k)
  lower : f.least = some k ∨ f.base ^ (f.precision - 1 + k) ≤ q
  allowed : ∀ l ∈ f.least, l ≤ k

/-- The number of the format that a rational is rounded to. -/
def Rounds (q r : ℚ) : Prop := (q = 0 ∧ r = 0) ∨ ∃ k n, f.RoundsAt k n q ∧ r = n * f.base ^ k

variable {f} {q q' r r' : ℚ}

theorem base_pos (f : FloatFormat) : (0 : ℚ) < f.base := by
  exact_mod_cast Nat.lt_trans Nat.zero_lt_one f.one_lt_base

theorem one_le_base (f : FloatFormat) : (1 : ℚ) ≤ f.base := by
  exact_mod_cast Nat.le_of_lt f.one_lt_base

theorem zpow_base_pos (f : FloatFormat) (k : ℤ) : (0 : ℚ) < f.base ^ k := zpow_pos f.base_pos k

theorem zpow_base_le (f : FloatFormat) {j k : ℤ} (h : j ≤ k) : (f.base : ℚ) ^ j ≤ f.base ^ k :=
  zpow_le_zpow_right₀ f.one_le_base h

theorem zpow_base_add (f : FloatFormat) (m : ℕ) (k : ℤ) :
    (f.base : ℚ) ^ (m + k) = (f.base ^ m : ℕ) * f.base ^ k := by
  rw [zpow_add₀ f.base_pos.ne', zpow_natCast, Nat.cast_pow]

theorem precision_pred (f : FloatFormat) : (f.precision : ℤ) - 1 = (f.precision - 1 : ℕ) := by
  have := f.precision_pos
  omega

namespace RoundsAt

variable {k k' : ℤ} {n n' : ℕ}

theorem le_end (h : f.RoundsAt k n q) : (n : ℚ) * f.base ^ k ≤ f.base ^ (f.precision + k) := by
  have hq : q / f.base ^ k ≤ (f.base ^ f.precision : ℕ) := by
    rw [div_le_iff₀ (f.zpow_base_pos k), ← zpow_base_add]
    exact h.upper.le
  rw [zpow_base_add]
  exact mul_le_mul_of_nonneg_right (by exact_mod_cast h.rounds.le_natCast hq)
    (f.zpow_base_pos k).le

theorem start_le (h : f.RoundsAt k n q) (hlow : (f.base : ℚ) ^ (f.precision - 1 + k) ≤ q) :
    (f.base : ℚ) ^ (f.precision - 1 + k) ≤ n * f.base ^ k := by
  rw [precision_pred, zpow_base_add] at hlow ⊢
  exact mul_le_mul_of_nonneg_right
    (by exact_mod_cast h.rounds.natCast_le ((le_div_iff₀ (f.zpow_base_pos k)).mpr hlow))
    (f.zpow_base_pos k).le

theorem start_le_of_lt (h : f.RoundsAt k n q) (h' : f.RoundsAt k' n' q') (hk : k < k') :
    (f.base : ℚ) ^ (f.precision - 1 + k') ≤ q' := by
  rcases h'.lower with hl | hl
  · have := h.allowed k' hl
    omega
  · exact hl

theorem eq_zero (h : f.RoundsAt k n q) (hq : q ≤ 0) : n = 0 := by
  have hz : q / f.base ^ k ≤ (0 : ℕ) := by
    simpa using div_nonpos_of_nonpos_of_nonneg hq (f.zpow_base_pos k).le
  exact Nat.le_zero.mp (h.rounds.le_natCast hz)

theorem mono (h : f.RoundsAt k n q) (h' : f.RoundsAt k' n' q') (hq : q ≤ q') :
    (n : ℚ) * f.base ^ k ≤ n' * f.base ^ k' := by
  rcases lt_trichotomy k k' with hk | rfl | hk
  · -- a power of the base stands between both
    have hlow := h.start_le_of_lt h' hk
    calc (n : ℚ) * f.base ^ k
      _ ≤ f.base ^ (f.precision + k) := h.le_end
      _ ≤ f.base ^ (f.precision - 1 + k') := f.zpow_base_le (by omega)
      _ ≤ n' * f.base ^ k' := h'.start_le hlow
  · have hn : n ≤ n' := h.rounds.mono h'.rounds
      (div_le_div_of_nonneg_right hq (f.zpow_base_pos k).le)
    exact mul_le_mul_of_nonneg_right (by exact_mod_cast hn) (f.zpow_base_pos k).le
  · have hlow := h'.start_le_of_lt h hk
    have hend : (f.base : ℚ) ^ (f.precision + k') ≤ f.base ^ (f.precision - 1 + k) :=
      f.zpow_base_le (by omega)
    linarith [h'.upper]

end RoundsAt

theorem Rounds.nonneg (h : f.Rounds q r) : 0 ≤ r := by
  rcases h with ⟨_, rfl⟩ | ⟨k, n, _, rfl⟩
  · exact le_rfl
  · exact mul_nonneg n.cast_nonneg (f.zpow_base_pos k).le

theorem Rounds.mono (h : f.Rounds q r) (h' : f.Rounds q' r') (hq : q ≤ q') : r ≤ r' := by
  rcases h with ⟨rfl, rfl⟩ | ⟨k, n, h, rfl⟩
  · exact h'.nonneg
  · rcases h' with ⟨rfl, rfl⟩ | ⟨k', n', h', rfl⟩
    · simp [h.eq_zero hq]
    · exact h.mono h' hq

theorem Rounds.unique (h : f.Rounds q r) (h' : f.Rounds q r') : r = r' :=
  le_antisymm (h.mono h' le_rfl) (h'.mono h le_rfl)

theorem Rounds.signed_mono {a b : Bool} (h : f.Rounds q r) (h' : f.Rounds q' r') (h0 : 0 ≤ q)
    (h0' : 0 ≤ q') (hq : signed a q ≤ signed b q') : signed a r ≤ signed b r' := by
  rcases signed_le_cases h0 h0' hq with ⟨rfl, rfl, hle⟩ | ⟨rfl, rfl, hle⟩ | ⟨rfl, rfl⟩ | ⟨rfl, rfl⟩
  · exact h.mono h' hle
  · exact neg_le_neg (h'.mono h hle)
  · exact signed_neg_le h.nonneg h'.nonneg
  · have hz : f.Rounds 0 0 := .inl ⟨rfl, rfl⟩
    rw [h.unique hz, h'.unique hz]
    cases a <;> cases b <;> simp [signed]

theorem Rounds.eq_of_exact {m : ℕ} {j : ℤ} (h : f.Rounds (m * f.base ^ j) r)
    (hm : m < f.base ^ f.precision) (hj : ∀ l ∈ f.least, l ≤ j) : r = m * f.base ^ j := by
  rcases h with ⟨hz, rfl⟩ | ⟨k, n, h, rfl⟩
  · exact hz.symm
  have hkj : k ≤ j := by
    rcases h.lower with hl | hl
    · exact hj k hl
    · by_contra hlt
      have hend : (f.base : ℚ) ^ (f.precision + j) ≤ f.base ^ (f.precision - 1 + k) :=
        f.zpow_base_le (by omega)
      have hm' : (m : ℚ) * f.base ^ j < f.base ^ (f.precision + j) := by
        rw [zpow_base_add]
        exact mul_lt_mul_of_pos_right (by exact_mod_cast hm) (f.zpow_base_pos j)
      linarith
  obtain ⟨i, rfl⟩ := Int.le.dest hkj
  have hsplit : (m : ℚ) * f.base ^ (k + i) = (m * f.base ^ i : ℕ) * f.base ^ k := by
    rw [add_comm, zpow_base_add]
    push_cast
    ring
  have hq := h.rounds
  rw [hsplit, mul_div_cancel_right₀ _ (f.zpow_base_pos k).ne'] at hq
  rw [hsplit, hq.eq_natCast]

theorem rounds_quotient (f : FloatFormat) (num : ℕ) {den : ℕ} (spare : ℕ) (e : ℤ) (hden : 0 < den)
    (hupper : num / den < f.base ^ (f.precision + spare))
    (hlower : f.least = some (e + spare) ∨ f.base ^ (f.precision - 1 + spare) ≤ num / den)
    (hallowed : ∀ l ∈ f.least, l ≤ e + spare) :
    f.RoundsAt (e + spare) (Direction.halfEven.quotient num (den * f.base ^ spare))
      (num / den * f.base ^ e) where
  rounds := by
    have h := Direction.halfEven.rounds_quotient num
      (Nat.mul_pos hden (Nat.pow_pos (n := spare) (Nat.lt_trans Nat.zero_lt_one f.one_lt_base)))
    have he := (f.zpow_base_pos e).ne'
    rwa [show (num : ℚ) / den * f.base ^ e / f.base ^ (e + spare) =
      num / (den * f.base ^ spare : ℕ) by
        rw [zpow_add₀ f.base_pos.ne', zpow_natCast]
        push_cast
        field_simp]
  upper := by
    have hd : (0 : ℚ) < den := by exact_mod_cast hden
    have h : (num : ℚ) / den < (f.base ^ (f.precision + spare) : ℕ) := by
      rw [div_lt_iff₀ hd]
      exact_mod_cast (Nat.div_lt_iff_lt_mul hden).mp hupper
    calc (num : ℚ) / den * f.base ^ e
      _ < (f.base ^ (f.precision + spare) : ℕ) * f.base ^ e :=
        mul_lt_mul_of_pos_right h (f.zpow_base_pos e)
      _ = f.base ^ (f.precision + (e + spare)) := by
        rw [← zpow_base_add]
        congr 1
        push_cast
        ring
  lower := by
    refine hlower.imp_right fun hl => ?_
    have hd : (0 : ℚ) < den := by exact_mod_cast hden
    have h : ((f.base ^ (f.precision - 1 + spare) : ℕ) : ℚ) ≤ num / den := by
      rw [le_div_iff₀ hd]
      exact_mod_cast (Nat.le_div_iff_mul_le hden).mp hl
    calc (f.base : ℚ) ^ (f.precision - 1 + (e + spare))
      _ = (f.base ^ (f.precision - 1 + spare) : ℕ) * f.base ^ e := by
        rw [← zpow_base_add, precision_pred]
        congr 1
        push_cast
        ring
      _ ≤ num / den * f.base ^ e := mul_le_mul_of_nonneg_right h (f.zpow_base_pos e).le
  allowed := hallowed

theorem rounds_self (f : FloatFormat) (hf : f.least = none) {m : ℕ} (k : ℤ)
    (hm : m < f.base ^ f.precision) : f.Rounds (m * f.base ^ k) (m * f.base ^ k) := by
  rcases Nat.eq_zero_or_pos m with rfl | hpos
  · exact .inl ⟨by simp, by simp⟩
  -- the digits are filled up with zeros to the precision
  obtain ⟨i, hi⟩ : ∃ i, Nat.log f.base m + i = f.precision - 1 :=
    ⟨f.precision - 1 - Nat.log f.base m, by
      have := Nat.log_lt_of_lt_pow hpos.ne' hm
      omega⟩
  have hval : (m : ℚ) * f.base ^ k = (m * f.base ^ i : ℕ) / (1 : ℕ) * f.base ^ (k - i) := by
    rw [zpow_sub₀ f.base_pos.ne', zpow_natCast]
    have := (pow_pos f.base_pos i).ne'
    push_cast
    field_simp
  have hupper : m * f.base ^ i < f.base ^ f.precision := by
    calc m * f.base ^ i
      _ < f.base ^ (Nat.log f.base m + 1) * f.base ^ i :=
        Nat.mul_lt_mul_of_pos_right (Nat.lt_pow_succ_log_self f.one_lt_base m)
          (Nat.pow_pos (Nat.lt_trans Nat.zero_lt_one f.one_lt_base))
      _ = f.base ^ f.precision := by
        rw [← Nat.pow_add]
        congr 1
        have := f.precision_pos
        omega
  have hlower : f.base ^ (f.precision - 1) ≤ m * f.base ^ i := by
    rw [← hi, Nat.pow_add]
    exact Nat.mul_le_mul_right _ (Nat.pow_log_le_self f.base hpos.ne')
  have h := f.rounds_quotient (m * f.base ^ i) 0 (k - i) Nat.one_pos
    (by simpa using hupper) (.inr (by simpa using hlower)) (by simp [hf])
  refine .inr ⟨_, _, hval ▸ h, ?_⟩
  rw [hval, Nat.pow_zero, Nat.mul_one, Direction.quotient_one]
  simp

theorem decimals_self {m : ℕ} (e : ℤ) (hm : m < 10 ^ 28) :
    decimals.Rounds (m * 10 ^ e) (m * 10 ^ e) := by
  simpa [decimals] using decimals.rounds_self rfl e hm

theorem Rounds.eq_of_digits {m : ℕ} {e : ℤ} (h : decimals.Rounds (m * 10 ^ e) r)
    (hm : m < 10 ^ 28) : r = m * 10 ^ e := h.unique (decimals_self e hm)

theorem Rounds.eq_natCast {m : ℕ} (h : decimals.Rounds m r) (hm : m < 10 ^ 28) : r = m := by
  have hself := decimals_self 0 hm
  rw [zpow_zero, mul_one] at hself
  exact h.unique hself

end FloatFormat

end ExamAdmission
