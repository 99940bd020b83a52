import ExamAdmission.Proofs.Arithmetic.Conversions

/-! The order of decimals. A hundredfold, a quotient by a positive number, a fixed number of places
and the way to a double all keep it. -/

namespace ExamAdmission

attribute [local irreducible] rangeEnd Binary64.unit

/-- Bearings of which the first never leads above the second. -/
def Bearing.AtMost (b b' : Bearing) : Prop := b = b' ∨ b = .floor ∨ b' = .ceiling

theorem Bearing.AtMost.direction_false {b b' : Bearing} (h : b.AtMost b') :
    (b.direction false).AtMost (b'.direction false) := by
  rcases h with rfl | rfl | rfl
  · exact .inl rfl
  · exact .inr (.inl rfl)
  · exact .inr (.inr rfl)

/-- Magnitudes of negative numbers are in the other order. -/
theorem Bearing.AtMost.direction_true {b b' : Bearing} (h : b.AtMost b') :
    (b'.direction true).AtMost (b.direction true) := by
  rcases h with rfl | rfl | rfl
  · exact .inl rfl
  · exact .inr (.inr rfl)
  · exact .inr (.inl rfl)

namespace Decimal

theorem rounds_quotient {num den : ℕ} (spare : ℕ) (e : ℤ) (hden : 0 < den)
    (hupper : num / den < 10 ^ (28 + spare)) (hlower : 10 ^ (27 + spare) ≤ num / den) :
    FloatFormat.decimals.Rounds (num / den * 10 ^ e)
      (Direction.halfEven.quotient num (den * 10 ^ spare) * 10 ^ (e + spare)) := by
  have hr := FloatFormat.decimals.rounds_quotient num spare e hden hupper (.inr hlower)
    (by simp [FloatFormat.decimals])
  exact .inr ⟨_, _, hr, by simp [FloatFormat.decimals]⟩

theorem significant_rounds (negative : Bool) {num den : ℕ} (e : ℤ) (hden : 0 < den)
    (h : num = 0 ∨ den = 1 ∨ 10 ^ 27 ≤ num / den) :
    ∃ c k, significant negative num den e = finite negative c k ∧
      FloatFormat.decimals.Rounds (num / den * 10 ^ e) (c * 10 ^ k) := by
  refine ⟨_, _, rfl, ?_⟩
  have hlen := lt_pow_decimalLength (num / den)
  by_cases hs : decimalLength (num / den) ≤ 28
  · -- no digit is lost
    have hspare : decimalLength (num / den) - precision = 0 := by
      simp only [precision]
      omega
    have hlt : num / den < 10 ^ 28 := Nat.lt_of_lt_of_le hlen (Nat.pow_le_pow_right (by decide) hs)
    rw [hspare]
    rcases h with rfl | rfl | h
    · exact .inl ⟨by simp, by simp [Direction.quotient]⟩
    · rw [show Nat.pow 10 0 = 1 from rfl, Nat.mul_one, Direction.quotient_one]
      rw [Nat.div_one] at hlt
      simpa using FloatFormat.decimals_self e hlt
    · exact rounds_quotient 0 e hden hlt h
  · have hpos : 0 < num / den := by
      by_contra hz
      rw [Nat.le_zero.mp (Nat.le_of_not_lt hz)] at hs
      exact hs (by decide)
    have hlow := pow_decimalLength_le hpos
    obtain ⟨spare, hspare⟩ := Nat.exists_eq_add_of_lt (not_le.mp hs)
    rw [show decimalLength (num / den) - precision = spare + 1 by simp only [precision]; omega]
    rw [hspare] at hlen hlow
    exact rounds_quotient _ e hden hlen (by convert hlow using 2; omega)

theorem mul_finite (a b : Bool) (m n : ℕ) (e f : ℤ) :
    ∃ c k, mul (finite a m e) (finite b n f) = .ok (finite (a != b) c k) ∧
      FloatFormat.decimals.Rounds (m * 10 ^ e * (n * 10 ^ f)) (c * 10 ^ k) := by
  obtain ⟨c, k, hs, hr⟩ := @significant_rounds (a != b) (m * n) 1 (e + f) Nat.one_pos
    (.inr (.inl rfl))
  refine ⟨c, k, by simp only [mul, hs], ?_⟩
  rwa [show (m : ℚ) * 10 ^ e * (n * 10 ^ f) = (m * n : ℕ) / (1 : ℕ) * 10 ^ (e + f) by
    rw [ten_zpow_add]
    push_cast
    ring]

theorem div_finite (a b : Bool) (m : ℕ) {n : ℕ} (e f : ℤ) (hn : 0 < n) :
    ∃ c k, div (finite a m e) (finite b n f) = .ok (finite (a != b) c k) ∧
      FloatFormat.decimals.Rounds (m * 10 ^ e / (n * 10 ^ f)) (c * 10 ^ k) := by
  have hdigits : m * Nat.pow 10 (extension n) = 0 ∨ n = 1 ∨
      10 ^ 27 ≤ m * Nat.pow 10 (extension n) / n := by
    rcases Nat.eq_zero_or_pos m with rfl | hm
    · exact .inl (by simp)
    · refine .inr (.inr ((Nat.le_div_iff_mul_le hn).mpr ?_))
      calc 10 ^ 27 * n
        _ ≤ 10 ^ 28 * 10 ^ decimalLength n :=
          Nat.mul_le_mul (by decide) (lt_pow_decimalLength n).le
        _ = Nat.pow 10 (extension n) := by rw [extension, Nat.pow_eq, precision, Nat.pow_add]
        _ ≤ m * Nat.pow 10 (extension n) := Nat.le_mul_of_pos_left _ hm
  obtain ⟨c, k, hs, hr⟩ := significant_rounds (a != b) (e - f - extension n) hn hdigits
  refine ⟨c, k, by simp only [div, hn.ne', if_false, hs], ?_⟩
  have hn' : (n : ℚ) ≠ 0 := by exact_mod_cast hn.ne'
  rwa [show (m : ℚ) * 10 ^ e / (n * 10 ^ f) =
      (m * Nat.pow 10 (extension n) : ℕ) / n * 10 ^ (e - f - extension n) by
    rw [zpow_sub₀ (by norm_num), zpow_sub₀ (by norm_num), zpow_natCast, Nat.pow_eq]
    push_cast
    field_simp]

/-- A fixed number of places is refused just where it needs more than 28 digits. -/
theorem toPlaces_finite (bearing : Bearing) (places : ℕ) (a : Bool) (c : ℕ) (e : ℤ) :
    ∃ m, (bearing.direction a).Rounds (c * 10 ^ (e + places)) m ∧
      toPlaces bearing places (finite a c e) =
        if m < 10 ^ 28 then .ok (finite a m (-places)) else .error .invalidOperation := by
  by_cases hc : c = 0
  · refine ⟨0, ?_, by simp [toPlaces, hc]⟩
    simpa [hc] using Direction.Rounds.natCast (bearing.direction a) 0
  by_cases hs : precision < e + places
  · -- an exact multiple that is too great
    refine ⟨c * 10 ^ (e + places).toNat, ?_, ?_⟩
    · have hcast : (c : ℚ) * 10 ^ (e + places) = (c * 10 ^ (e + places).toNat : ℕ) := by
        have hnat : ((e + places).toNat : ℤ) = e + places :=
          Int.toNat_of_nonneg (by simp only [precision] at hs; omega)
        rw [Nat.cast_mul, Nat.cast_pow, ← zpow_natCast, hnat]
        rfl
      rw [hcast]
      exact .natCast _ _
    · have hle : 10 ^ 28 ≤ c * 10 ^ (e + places).toNat :=
        (Nat.pow_le_pow_right (by decide) (by simp only [precision] at hs; omega)).trans
          (Nat.le_mul_of_pos_left _ (Nat.pos_of_ne_zero hc))
      simp only [toPlaces, hc, hs, if_true, if_false, Nat.not_lt.mpr hle]
  · refine ⟨_, ?_, by simp only [toPlaces, hc, hs, if_false]; rfl⟩
    have hr := (bearing.direction a).rounds_quotient (c * Nat.pow 10 (e + places).toNat)
      (Nat.pow_pos (n := (-(e + places)).toNat) (by decide : 0 < 10))
    rwa [ten_zpow_eq_div, ← mul_div_assoc, ← Nat.cast_mul]

/-- The order of decimals; one that is no number compares with nothing. -/
protected def le : Decimal → Decimal → Prop
  | .nan, _ => False
  | _, .nan => False
  | .infinite true, _ => True
  | _, .infinite false => True
  | .finite a m e, .finite b n f => signed a (m * 10 ^ e) ≤ signed b (n * 10 ^ f)
  | _, _ => False

instance : LE Decimal := ⟨Decimal.le⟩

@[simp] theorem finite_le_finite {a b : Bool} {m n : ℕ} {e f : ℤ} :
    finite a m e ≤ finite b n f ↔ signed a (m * 10 ^ e) ≤ signed b (n * 10 ^ f) := Iff.rfl

@[simp] theorem not_nan_le {x : Decimal} : ¬ nan ≤ x := id

@[simp] theorem not_le_nan {x : Decimal} : ¬ x ≤ nan := by
  intro h
  rcases x with _ | (_ | _) | _ <;> exact h

@[simp] theorem negInfinite_le {x : Decimal} : infinite true ≤ x ↔ x ≠ nan := by
  constructor
  · rintro h rfl
    exact not_le_nan h
  · intro h
    rcases x with _ | (_ | _) | _
    · exact h rfl
    all_goals exact trivial

@[simp] theorem le_posInfinite {x : Decimal} : x ≤ infinite false ↔ x ≠ nan := by
  constructor
  · rintro h rfl
    exact not_nan_le h
  · intro h
    rcases x with _ | (_ | _) | _
    · exact h rfl
    all_goals exact trivial

@[simp] theorem not_posInfinite_le_finite {a : Bool} {m : ℕ} {e : ℤ} :
    ¬ infinite false ≤ finite a m e := id

@[simp] theorem not_finite_le_negInfinite {a : Bool} {m : ℕ} {e : ℤ} :
    ¬ finite a m e ≤ infinite true := id

@[simp] theorem not_posInfinite_le_negInfinite : ¬ infinite false ≤ infinite true := id

protected theorem le_trans {x y z : Decimal} (h : x ≤ y) (h' : y ≤ z) : x ≤ z := by
  rcases x with _ | (_ | _) | ⟨a, m, e⟩ <;> rcases y with _ | (_ | _) | ⟨b, n, f⟩ <;>
    rcases z with _ | (_ | _) | ⟨c, k, g⟩ <;> simp at h h' ⊢
  exact h.trans h'

theorem scaled_nonneg (m : ℕ) (e : ℤ) : (0 : ℚ) ≤ m * 10 ^ e :=
  mul_nonneg m.cast_nonneg (ten_zpow_pos e).le

/-- An operation that multiplies by a factor and rounds. Infinities stay, or have no result. -/
structure Scales (op : Decimal → Except ArithmeticFault Decimal) (factor : ℚ) : Prop where
  finite : ∀ a m e, ∃ c k, op (finite a m e) = .ok (finite a c k) ∧
    FloatFormat.decimals.Rounds (m * 10 ^ e * factor) (c * 10 ^ k)
  infinite : ∀ a y, op (infinite a) = .ok y → y = infinite a

theorem scales_mul_hundred : Scales (·.mul (ofInt 100)) 100 where
  finite a m e := by
    obtain ⟨c, k, h, hr⟩ := mul_finite a false m 100 e 0
    exact ⟨c, k, by simpa [ofInt] using h, by simpa using hr⟩
  infinite a y h := by
    cases a <;> simpa [mul, ofInt, eq_comm] using h

theorem ofInt_natCast (n : ℕ) : ofInt n = .finite false n 0 := by
  rw [ofInt, Int.natAbs_natCast, decide_eq_false (Int.not_lt.mpr (Int.natCast_nonneg n))]

theorem scales_mul_count (n : ℕ) : Scales ((ofInt n).mul ·) n where
  finite a m e := by
    obtain ⟨c, k, h, hr⟩ := mul_finite false a n m 0 e
    exact ⟨c, k, by simpa [ofInt_natCast] using h, by simpa [mul_comm] using hr⟩
  infinite a y h := by
    rw [ofInt_natCast] at h
    by_cases hn : n = 0
    · simp [mul, hn] at h
    · cases a <;> simpa [mul, hn, eq_comm] using h

theorem scales_div {n : ℕ} (e : ℤ) (hn : 0 < n) :
    Scales (·.div (.finite false n e)) (1 / (n * 10 ^ e)) where
  finite a m f := by
    obtain ⟨c, k, h, hr⟩ := div_finite a false m f e hn
    exact ⟨c, k, by simpa using h, by simpa [div_eq_mul_inv] using hr⟩
  infinite a y h := by
    cases a <;> simpa [div, eq_comm] using h

theorem scales_div_infinite : Scales (·.div (.infinite false)) 0 where
  finite a m e := ⟨0, 0, by cases a <;> simp [div], .inl ⟨by simp, by simp⟩⟩
  infinite a y h := by simp [div] at h

section Order

variable {x y x' y' : Decimal}

theorem le_cases (h : x ≤ y) :
    (x = infinite true ∧ y ≠ nan) ∨ (x ≠ nan ∧ y = infinite false) ∨
      ∃ a m e b n f, x = finite a m e ∧ y = finite b n f ∧
        signed a (m * 10 ^ e) ≤ signed b (n * 10 ^ f) := by
  rcases x with _ | (_ | _) | ⟨a, m, e⟩ <;> rcases y with _ | (_ | _) | ⟨b, n, f⟩ <;> simp_all

theorem Scales.ne_nan {op : Decimal → Except ArithmeticFault Decimal} {factor : ℚ}
    (h : Scales op factor) (hn : x ≠ nan) (hx : op x = .ok x') : x' ≠ nan := by
  rcases x with _ | _ | ⟨a, m, e⟩
  · exact absurd rfl hn
  · rw [h.infinite _ _ hx]
    simp
  · obtain ⟨c, k, ho, _⟩ := h.finite a m e
    rw [Except.ok.inj (hx.symm.trans ho)]
    simp

theorem Scales.mono {op : Decimal → Except ArithmeticFault Decimal} {factor : ℚ}
    (h : Scales op factor) (hf : 0 ≤ factor) (hxy : x ≤ y) (hx : op x = .ok x')
    (hy : op y = .ok y') : x' ≤ y' := by
  rcases le_cases hxy with ⟨rfl, hn⟩ | ⟨hn, rfl⟩ | ⟨a, m, e, b, n, f, rfl, rfl, hle⟩
  · rw [h.infinite _ _ hx, negInfinite_le]
    exact h.ne_nan hn hy
  · rw [h.infinite _ _ hy, le_posInfinite]
    exact h.ne_nan hn hx
  · obtain ⟨c, k, ho, hr⟩ := h.finite a m e
    obtain ⟨c', k', ho', hr'⟩ := h.finite b n f
    rw [Except.ok.inj (hx.symm.trans ho), Except.ok.inj (hy.symm.trans ho'), finite_le_finite]
    refine hr.signed_mono hr' (mul_nonneg (scaled_nonneg m e) hf)
      (mul_nonneg (scaled_nonneg n f) hf) ?_
    have hmul := mul_le_mul_of_nonneg_right hle hf
    cases a <;> cases b <;> simpa [signed] using hmul

theorem Scales.nonneg {op : Decimal → Except ArithmeticFault Decimal} {factor : ℚ}
    (h : Scales op factor) (hf : 0 ≤ factor) (hx : Decimal.finite false 0 0 ≤ x)
    (hop : op x = .ok x') : Decimal.finite false 0 0 ≤ x' := by
  obtain ⟨c, k, h0, hr⟩ := h.finite false 0 0
  have hz : (c : ℚ) * 10 ^ k = 0 := hr.unique (.inl ⟨by simp, rfl⟩)
  have hle := h.mono hf hx h0 hop
  rcases x' with _ | (_ | _) | ⟨a, m, e⟩
  · simp at hle
  · simp
  · simp at hle
  · simpa [hz, signed] using hle

theorem toPlaces_le_toPlaces {bearing bearing' : Bearing} {places : ℕ}
    (hb : bearing.AtMost bearing') (hxy : x ≤ y) (hx : toPlaces bearing places x = .ok x')
    (hy : toPlaces bearing' places y = .ok y') : x' ≤ y' := by
  rcases le_cases hxy with ⟨rfl, _⟩ | ⟨_, rfl⟩ | ⟨a, m, e, b, n, f, rfl, rfl, hmn⟩
  · simp [toPlaces] at hx
  · simp [toPlaces] at hy
  obtain ⟨c, hc, ho⟩ := toPlaces_finite bearing places a m e
  obtain ⟨c', hc', ho'⟩ := toPlaces_finite bearing' places b n f
  rw [hx] at ho
  rw [hy] at ho'
  split at ho
  · split at ho'
    · rw [Except.ok.inj ho, Except.ok.inj ho', finite_le_finite]
      have hm := scaled_nonneg m (e + places)
      have hn := scaled_nonneg n (f + places)
      have hle : signed a (m * 10 ^ (e + places)) ≤ signed b (n * 10 ^ (f + places)) := by
        have h := mul_le_mul_of_nonneg_right hmn (ten_zpow_pos places).le
        rw [ten_zpow_add, ten_zpow_add, ← mul_assoc, ← mul_assoc]
        cases a <;> cases b <;> simpa [signed] using h
      have hscale : ∀ {i j : ℕ}, i ≤ j →
          (i : ℚ) * 10 ^ (-(places : ℤ)) ≤ j * 10 ^ (-(places : ℤ)) := fun h =>
        mul_le_mul_of_nonneg_right (by exact_mod_cast h) (ten_zpow_pos _).le
      rcases signed_le_cases hm hn hle with
        ⟨rfl, rfl, h⟩ | ⟨rfl, rfl, h⟩ | ⟨rfl, rfl⟩ | ⟨h, h'⟩
      · exact hscale (hb.direction_false.rounds_le hc hc' h)
      · exact neg_le_neg (hscale (hb.direction_true.rounds_le hc' hc h))
      · exact signed_neg_le (scaled_nonneg _ _) (scaled_nonneg _ _)
      · rw [h, ← Nat.cast_zero] at hc
        rw [h', ← Nat.cast_zero] at hc'
        rw [hc.eq_natCast, hc'.eq_natCast]
        cases a <;> cases b <;> simp [signed]
    · cases ho'
  · cases ho

theorem toPlaces_mono {bearing : Bearing} {places : ℕ} (hxy : x ≤ y)
    (hx : toPlaces bearing places x = .ok x') (hy : toPlaces bearing places y = .ok y') :
    x' ≤ y' := toPlaces_le_toPlaces (.inl rfl) hxy hx hy

theorem toBinary64_ne_nan (h : x ≠ nan) : x.toBinary64 ≠ .nan := by
  rcases x with _ | _ | ⟨a, m, e⟩
  · exact absurd rfl h
  · simp [toBinary64]
  · exact (Binary64.nearest_ofDecimal a m e).ne_nan

theorem toBinary64_mono (hxy : x ≤ y) : x.toBinary64 ≤ y.toBinary64 := by
  have hunit := Binary64.unit_pos
  rcases le_cases hxy with ⟨rfl, hn⟩ | ⟨hn, rfl⟩ | ⟨a, m, e, b, n, f, rfl, rfl, hle⟩
  · simpa [toBinary64] using toBinary64_ne_nan hn
  · simpa [toBinary64] using toBinary64_ne_nan hn
  · refine (Binary64.nearest_ofDecimal a m e).le (Binary64.nearest_ofDecimal b n f)
      (mul_nonneg (scaled_nonneg m e) hunit.le) (mul_nonneg (scaled_nonneg n f) hunit.le) ?_
    have h := mul_le_mul_of_nonneg_right hle hunit.le
    cases a <;> cases b <;> simpa [signed] using h

end Order

end Decimal

end ExamAdmission
