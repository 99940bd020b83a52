import ExamAdmission.Proofs.Arithmetic.FloatFormat

/-! The order of doubles. Whatever is rounded to a double keeps its order with everything else that
is, signs and infinities included. -/

namespace ExamAdmission

theorem FloatFormat.units_allows (k : ℕ) : ∀ l ∈ FloatFormat.units.least, l ≤ (k : ℤ) := by
  intro l hl
  cases hl
  exact Int.natCast_nonneg k

theorem nearestUnits_rounds (num : ℕ) {den : ℕ} (hden : 0 < den) :
    FloatFormat.units.Rounds (num / den) (nearestUnits num den) := by
  have hupper : num / den < 2 ^ (53 + ((num / den).log2 - 52)) := by
    rcases Nat.eq_zero_or_pos (num / den) with h | h
    · rw [h]; exact Nat.two_pow_pos _
    · exact (Nat.log2_lt h.ne').mp (by omega)
  have hlower : FloatFormat.units.least = some (0 + ((num / den).log2 - 52 : ℕ)) ∨
      2 ^ (52 + ((num / den).log2 - 52)) ≤ num / den := by
    by_cases hs : (num / den).log2 - 52 = 0
    · exact .inl (by simp [hs, FloatFormat.units])
    · right
      rw [show 52 + ((num / den).log2 - 52) = (num / den).log2 by omega]
      exact Nat.log2_self_le fun h => hs (by simp [h])
  have h := FloatFormat.units.rounds_quotient num _ 0 hden hupper hlower
    (by simpa using FloatFormat.units_allows _)
  rw [zpow_zero, mul_one, zero_add] at h
  refine .inr ⟨_, _, h, ?_⟩
  rw [zpow_natCast, ← Nat.cast_pow, ← Nat.cast_mul]
  rfl

theorem nearestUnits_one_rounds (n : ℕ) : FloatFormat.units.Rounds n (nearestUnits n 1) := by
  have h := nearestUnits_rounds n Nat.one_pos
  rwa [Nat.cast_one, div_one] at h

theorem rangeEnd_eq : rangeEnd = Nat.pow 2 2098 := by
  unfold rangeEnd
  rfl

theorem FloatFormat.units_pow (k : ℕ) :
    ((2 ^ k : ℕ) : ℚ) = (1 : ℕ) * (FloatFormat.units.base : ℚ) ^ (k : ℤ) := by
  rw [zpow_natCast, Nat.cast_one, one_mul, Nat.cast_pow]
  rfl

theorem rounds_rangeEnd {r : ℚ} (h : FloatFormat.units.Rounds rangeEnd r) : r = rangeEnd := by
  obtain ⟨k, hk⟩ : ∃ k, rangeEnd = Nat.pow 2 k := ⟨2098, rangeEnd_eq⟩
  rw [hk, Nat.pow_eq, FloatFormat.units_pow] at h ⊢
  exact h.eq_of_exact (by decide) (FloatFormat.units_allows k)

theorem Magnitude.ext {m n : Magnitude} (h : m.units = n.units) : m = n := by
  cases m
  cases n
  cases h
  rfl

namespace Binary64

instance : LE Binary64 := ⟨fun x y => Position.leq? x.position? y.position?⟩

theorem le_iff {x y : Binary64} : x ≤ y ↔ Position.leq? x.position? y.position? = true := Iff.rfl

@[simp] theorem finite_le_finite {a b : Bool} {m n : Magnitude} :
    finite a m ≤ finite b n ↔ signedUnits a m ≤ signedUnits b n := by
  simp [le_iff, Position.leq?, position?, Position.le]

@[simp] theorem negInfinite_le {x : Binary64} : infinite true ≤ x ↔ x ≠ nan := by
  cases x <;> simp [le_iff, Position.leq?, position?, Position.le]

@[simp] theorem le_posInfinite {x : Binary64} : x ≤ infinite false ↔ x ≠ nan := by
  rcases x with _ | (_ | _) | _ <;> simp [le_iff, Position.leq?, position?, Position.le]

@[simp] theorem not_posInfinite_le_finite {a : Bool} {m : Magnitude} :
    ¬ infinite false ≤ finite a m := by
  simp [le_iff, Position.leq?, position?, Position.le]

@[simp] theorem not_finite_le_negInfinite {a : Bool} {m : Magnitude} :
    ¬ finite a m ≤ infinite true := by
  simp [le_iff, Position.leq?, position?, Position.le]

@[simp] theorem not_posInfinite_le_negInfinite : ¬ infinite false ≤ infinite true := by
  simp [le_iff, Position.leq?, position?, Position.le]

@[simp] theorem not_nan_le {x : Binary64} : ¬ nan ≤ x := by
  simp [le_iff, Position.leq?, position?]

@[simp] theorem not_le_nan {x : Binary64} : ¬ x ≤ nan := by
  cases x <;> simp [le_iff, Position.leq?, position?]

theorem le_refl {x : Binary64} (h : x ≠ nan) : x ≤ x := by
  rcases x with _ | (_ | _) | _ <;> simp_all

theorem le_trans {x y z : Binary64} (h : x ≤ y) (h' : y ≤ z) : x ≤ z := by
  rcases x with _ | (_ | _) | _ <;> rcases y with _ | (_ | _) | _ <;>
    rcases z with _ | (_ | _) | _ <;> simp_all
  exact Int.le_trans h h'

theorem eq_or_zero_of_units {a b : Bool} {m n : Magnitude}
    (h : signedUnits a m = signedUnits b n) :
    finite a m = finite b n ∨ (finite a m = zero a ∧ finite b n = zero b) := by
  by_cases hz : m.units = 0
  · have hz' : n.units = 0 := by
      cases a <;> cases b <;> simp [signedUnits, hz] at h <;> omega
    exact .inr ⟨congrArg _ (Magnitude.ext hz), congrArg _ (Magnitude.ext hz')⟩
  · have hab : a = b ∧ m.units = n.units := by
      cases a <;> cases b <;> simp [signedUnits] at h ⊢ <;> omega
    obtain ⟨rfl, hmn⟩ := hab
    exact .inl (congrArg _ (Magnitude.ext hmn))

theorem le_cases {x y : Binary64} (h : x ≤ y) :
    (x = infinite true ∧ y ≠ nan) ∨ (x ≠ nan ∧ y = infinite false) ∨
      ∃ a m b n, x = finite a m ∧ y = finite b n ∧ signedUnits a m ≤ signedUnits b n := by
  rcases x with _ | (_ | _) | ⟨a, m⟩ <;> rcases y with _ | (_ | _) | ⟨b, n⟩ <;> simp_all

theorem eq_or_zero_of_le_of_le {x y : Binary64} (h : x ≤ y) (h' : y ≤ x) :
    x = y ∨ ∃ a b, x = zero a ∧ y = zero b := by
  rcases le_cases h with ⟨rfl, _⟩ | ⟨_, rfl⟩ | ⟨a, m, b, n, rfl, rfl, hle⟩
  · rcases y with _ | (_ | _) | _ <;> simp_all
  · rcases x with _ | (_ | _) | _ <;> simp_all
  · rcases eq_or_zero_of_units (Int.le_antisymm hle (finite_le_finite.mp h')) with he | hz
    · exact .inl he
    · exact .inr ⟨a, b, hz⟩

/-- The doubles that a number of units with a sign is rounded to. -/
inductive Nearest (negative : Bool) (q : ℚ) : Binary64 → Prop
  | within (m : Magnitude) (h : FloatFormat.units.Rounds q m.units) :
      Nearest negative q (finite negative m)
  | beyond (u : ℕ) (h : FloatFormat.units.Rounds q u) (hu : rangeEnd ≤ u) :
      Nearest negative q (infinite negative)

theorem ofUnits_of_lt {negative : Bool} {num den : ℕ} (h : nearestUnits num den < rangeEnd) :
    ofUnits negative num den =
      finite negative ⟨_, h, nearestUnits_significant num den⟩ := by
  have hn : Magnitude.nearest? num den = some ⟨_, h, nearestUnits_significant num den⟩ :=
    dif_pos h
  rw [ofUnits, hn]
  rfl

theorem ofUnits_of_le {negative : Bool} {num den : ℕ} (h : rangeEnd ≤ nearestUnits num den) :
    ofUnits negative num den = infinite negative := by
  have hn : Magnitude.nearest? num den = none := dif_neg (Nat.not_lt.mpr h)
  rw [ofUnits, hn]
  rfl

theorem nearest_ofUnits (negative : Bool) (num : ℕ) {den : ℕ} (hden : 0 < den) :
    Nearest negative (num / den) (ofUnits negative num den) := by
  have h := nearestUnits_rounds num hden
  rcases Nat.lt_or_ge (nearestUnits num den) rangeEnd with hu | hu
  · rw [ofUnits_of_lt hu]
    exact .within _ h
  · rw [ofUnits_of_le hu]
    exact .beyond _ h hu

namespace Nearest

variable {a b : Bool} {q q' : ℚ} {x y : Binary64}

theorem ne_nan (h : Nearest a q x) : x ≠ nan := by
  cases h <;> simp

theorem le_of_nonneg (h : Nearest false q x) (h' : Nearest false q' y) (hq : q ≤ q') : x ≤ y := by
  cases h' with
  | beyond u' hu' hr' => simpa using h.ne_nan
  | within n hn =>
    cases h with
    | within m hm =>
      have hle : m.units ≤ n.units := by exact_mod_cast hm.mono hn hq
      simpa [signedUnits] using hle
    | beyond u hu hr =>
      have hle : u ≤ n.units := by exact_mod_cast hu.mono hn hq
      exact absurd n.lt_rangeEnd (Nat.not_lt.mpr (Nat.le_trans hr hle))

theorem le_of_nonpos (h : Nearest true q x) (h' : Nearest true q' y) (hq : q' ≤ q) : x ≤ y := by
  cases h with
  | beyond u hu hr => simpa using h'.ne_nan
  | within m hm =>
    cases h' with
    | within n hn =>
      have hle : n.units ≤ m.units := by exact_mod_cast hn.mono hm hq
      simpa [signedUnits] using hle
    | beyond u hu hr =>
      have hle : u ≤ m.units := by exact_mod_cast hu.mono hm hq
      exact absurd m.lt_rangeEnd (Nat.not_lt.mpr (Nat.le_trans hr hle))

theorem le_of_signs (h : Nearest true q x) (h' : Nearest false q' y) : x ≤ y := by
  cases h' with
  | beyond u' hu' hr' => simpa using h.ne_nan
  | within n hn =>
    cases h with
    | beyond u hu hr => simp
    | within m hm =>
      simp only [finite_le_finite, signedUnits, if_true]
      simp

theorem units_of_zero (h : Nearest a 0 x) : ∃ m, x = finite a m ∧ m.units = 0 := by
  have hz : FloatFormat.units.Rounds 0 0 := .inl ⟨rfl, rfl⟩
  cases h with
  | within m hm => exact ⟨m, rfl, by exact_mod_cast hm.unique hz⟩
  | beyond u hu hr =>
    have h0 : u = 0 := by exact_mod_cast hu.unique hz
    exact absurd rangeEnd_pos (by omega)

theorem le (h : Nearest a q x) (h' : Nearest b q' y) (h0 : 0 ≤ q) (h0' : 0 ≤ q')
    (hq : signed a q ≤ signed b q') : x ≤ y := by
  rcases signed_le_cases h0 h0' hq with ⟨rfl, rfl, hle⟩ | ⟨rfl, rfl, hle⟩ | ⟨rfl, rfl⟩ | ⟨rfl, rfl⟩
  · exact h.le_of_nonneg h' hle
  · exact h.le_of_nonpos h' hle
  · exact h.le_of_signs h'
  · obtain ⟨m, rfl, hm⟩ := h.units_of_zero
    obtain ⟨n, rfl, hn⟩ := h'.units_of_zero
    cases a <;> cases b <;> simp [signedUnits, hm, hn]

end Nearest

end Binary64

end ExamAdmission
