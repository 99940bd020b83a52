import ExamAdmission.Proofs.Rounding.LastPlace
import ExamAdmission.Proofs.Rounding.Types

/-! Rounding to one number of decimals. Every type keeps the order of numbers. Those that lead to a
last place have results for the same numbers, whichever way they lead: the result downwards and the
one upwards enclose the number itself and its nearest place. -/

namespace ExamAdmission

attribute [local irreducible] rangeEnd Binary64.unit

/-- The type has this rounder for the decimals. Its name may be written in any case. -/
def RoundingType.Yields (t : RoundingType) (decimals : Value) (r : Rounder) : Prop :=
  ∃ type, roundingNameOf type = .ok t.name ∧ rounderOf type decimals = .ok r

namespace Bearing

variable {bearing : Bearing} {decimals : Value} {r : Rounder}

theorem exists_of_yields (h : bearing.type.Yields decimals r) :
    ∃ n, decimalsOf decimals = .ok n ∧ r = .toPlaces bearing n := by
  obtain ⟨type, hname, hr⟩ := h
  rw [rounderOf_of_name hname] at hr
  obtain ⟨n, hn, hrounder⟩ := bind_eq_ok.mp hr
  exact ⟨n, hn, (rounder_eq_ok.mp hrounder).2⟩

theorem yields_type (bearing : Bearing) {n : ℕ} (hn : n ≤ mostDecimals) :
    bearing.type.Yields (.int n) (.toPlaces bearing n) :=
  ⟨_, bearing.roundingNameOf_type,
    (bearing.rounderOf_type n).trans (rounder_eq_ok.mpr ⟨hn, rfl⟩)⟩

end Bearing

namespace Rounder

/-- Whether a number has a multiple of 28 digits in its place does not depend on the direction. -/
theorem round_toPlaces_cases {x : Binary64} (hx : x.IsFinite) (n : ℕ) :
    (∀ bearing, ∃ y, (toPlaces bearing n).round x = .ok y) ∨
      ∀ bearing, (toPlaces bearing n).round x = .error (.arithmetic .invalidOperation) := by
  obtain ⟨a, m, rfl⟩ := hx
  by_cases hv : (Decimal.ofBinary64 (.finite a m)).value = 0
  · obtain rfl : m = .zero := Magnitude.ext (Magnitude.value_eq_zero_iff.mp hv)
    exact .inl fun bearing => ⟨_, round_zero _ a⟩
  rcases lt_or_ge (|(Decimal.ofBinary64 (.finite a m)).value| * 10 ^ n) (10 ^ 28) with
    hfew | hmany
  · refine .inl fun bearing => ?_
    obtain ⟨y, hy, -⟩ := (round_finite bearing n a rfl hv).1 hfew
    exact ⟨_, hy⟩
  · exact .inr fun bearing => (round_finite bearing n a rfl hv).2 hmany

theorem round_encloses {x low near high : Binary64} {n : ℕ} (hx : x.IsFinite)
    (hlow : (toPlaces .floor n).round x = .ok low)
    (hnear : (toPlaces .nearest n).round x = .ok near)
    (hhigh : (toPlaces .ceiling n).round x = .ok high) :
    low ≤ x ∧ x ≤ high ∧ low ≤ near ∧ near ≤ high := by
  obtain ⟨a, m, rfl⟩ := hx
  have hself : Binary64.finite a m ≤ .finite a m := Binary64.le_refl nofun
  have hbelow : (toPlaces .floor n).AtMost (.toPlaces .nearest n) := ⟨rfl, .inr (.inl rfl)⟩
  have habove : (toPlaces .nearest n).AtMost (.toPlaces .ceiling n) := ⟨rfl, .inr (.inr rfl)⟩
  exact ⟨round_floor_le nofun hlow, le_round_ceiling nofun hhigh, hbelow.round_le hself hlow hnear,
    habove.round_le hself hnear hhigh⟩

end Rounder

/-- Every type of rounding keeps the order of numbers. With the same decimals, rounding down leads to
the number or below it and rounding up to the number or above it, with the nearest place between
them, or none of the three has a result. -/
theorem roundings_ordered (decimals : Value) {x : Binary64} (hx : x.IsFinite) :
    (∀ t r y x' y', RoundingType.Yields t decimals r → x ≤ y → r.round x = .ok x' →
      r.round y = .ok y' → x' ≤ y') ∧
    ∀ down normal up, RoundingType.down.Yields decimals down →
      RoundingType.normal.Yields decimals normal → RoundingType.up.Yields decimals up →
      (∃ low near high, down.round x = .ok low ∧ normal.round x = .ok near ∧
        up.round x = .ok high ∧ low ≤ x ∧ x ≤ high ∧ low ≤ near ∧ near ≤ high) ∨
      ∀ r ∈ [down, normal, up], r.round x = .error (.arithmetic .invalidOperation) := by
  refine ⟨fun t r y x' y' _ hxy hx' hy' => Rounder.round_mono hxy hx' hy',
    fun down normal up hdown hnormal hup => ?_⟩
  obtain ⟨n, hn, rfl⟩ := Bearing.floor.exists_of_yields hdown
  obtain ⟨_, hn', rfl⟩ := Bearing.nearest.exists_of_yields hnormal
  obtain ⟨_, hn'', rfl⟩ := Bearing.ceiling.exists_of_yields hup
  cases hn.symm.trans hn'
  cases hn.symm.trans hn''
  rcases Rounder.round_toPlaces_cases hx n with hall | hnone
  · obtain ⟨low, hlow⟩ := hall .floor
    obtain ⟨near, hnear⟩ := hall .nearest
    obtain ⟨high, hhigh⟩ := hall .ceiling
    exact .inl ⟨low, near, high, hlow, hnear, hhigh, Rounder.round_encloses hx hlow hnear hhigh⟩
  · refine .inr fun r hr => ?_
    simp only [List.mem_cons, List.not_mem_nil, or_false] at hr
    rcases hr with rfl | rfl | rfl
    · exact hnone .floor
    · exact hnone .nearest
    · exact hnone .ceiling

/-- Minus two and a half as a whole number is minus three, down and to the nearest place, and minus
two upwards. -/
theorem roundings_ordered_negative_half :
    ∃ down normal up y, RoundingType.down.Yields (.int 0) down ∧
      RoundingType.normal.Yields (.int 0) normal ∧ RoundingType.up.Yields (.int 0) up ∧
      down.round (.ofDecimal true 25 (-1)) = .ok (.ofDecimal true 3 0) ∧
      normal.round (.ofDecimal true 25 (-1)) = .ok (.ofDecimal true 3 0) ∧
      up.round (.ofDecimal true 25 (-1)) = .ok (.ofDecimal true 2 0) ∧
      Binary64.ofDecimal true 3 0 ≤ .ofDecimal true 25 (-1) ∧
      Binary64.ofDecimal true 25 (-1) ≤ .ofDecimal true 2 0 ∧
      Binary64.ofDecimal true 3 0 ≤ .ofDecimal true 2 0 ∧
      normal.round (.ofDecimal false 25 (-1)) = .ok y ∧ Binary64.ofDecimal true 3 0 ≤ y := by
  have hdec : Decimal.ofBinary64 (.ofDecimal true 25 (-1)) = .finite true 25 (-1) := by
    decide +kernel
  have hthree : (Rounder.toPlaces .floor 0).round (.ofDecimal true 25 (-1)) =
      .ok (.ofDecimal true 3 0) := eq_ok_of_any (by decide +kernel)
  have hnear : (Rounder.toPlaces .nearest 0).round (.ofDecimal true 25 (-1)) =
      .ok (.ofDecimal true 3 0) := eq_ok_of_any (by decide +kernel)
  have htwo : (Rounder.toPlaces .ceiling 0).round (.ofDecimal true 25 (-1)) =
      .ok (.ofDecimal true 2 0) := eq_ok_of_any (by decide +kernel)
  have hother : ((Rounder.toPlaces .nearest 0).round (.ofDecimal false 25 (-1))).isOk = true := by
    decide +kernel
  obtain ⟨y, hy⟩ := exists_of_isOk hother
  have hdown := Bearing.floor.yields_type (n := 0) (by decide)
  have hnormal := Bearing.nearest.yields_type (n := 0) (by decide)
  have hup := Bearing.ceiling.yields_type (n := 0) (by decide)
  obtain ⟨hmono, hencloses⟩ :=
    roundings_ordered (.int 0) ⟨true, Decimal.eq_finite_of_ofBinary64 hdec⟩
  have hpositive : Binary64.ofDecimal true 25 (-1) ≤ .ofDecimal false 25 (-1) := by
    rw [Binary64.le_iff]
    decide +kernel
  have horder := hmono .normal _ _ _ _ hnormal hpositive hnear hy
  rcases hencloses _ _ _ hdown hnormal hup with ⟨_, _, _, hlow, hmid, hhigh, h⟩ | hnone
  · cases hlow.symm.trans hthree
    cases hmid.symm.trans hnear
    cases hhigh.symm.trans htwo
    exact ⟨_, _, _, y, hdown, hnormal, hup, hthree, hnear, htwo, h.1, h.2.1, h.2.2.2, hy, horder⟩
  · cases hthree.symm.trans (hnone _ List.mem_cons_self)

end ExamAdmission
