import ExamAdmission.Proofs.Document.Sums
import ExamAdmission.Rule.Check

/-! The sign of a sum. Positive summands have a positive sum, with infinite ones and with ones that
are no numbers too, and no sum is negative zero, so the sign of a zero makes no difference to it. -/

namespace ExamAdmission

attribute [local irreducible] rangeEnd Binary64.unit

theorem Binary64.add_comm (x y : Binary64) : x.add y = y.add x := by
  rcases x with _ | a | ⟨a, m⟩ <;> rcases y with _ | b | ⟨b, n⟩ <;>
    simp [add, Int.add_comm, Bool.and_comm]
  cases a <;> cases b <;> rfl

theorem Binary64.add_zero_congr {x : Binary64} (h : x ≠ zero true) (negative : Bool) :
    x.add (zero negative) = x.add (zero false) := by
  rcases x with _ | a | ⟨a, m⟩
  · rfl
  · rfl
  have hzero : ∀ sign, signedUnits sign Magnitude.zero = 0 := by
    intro sign
    cases sign <;> rfl
  simp only [add, zero, hzero, add_zero]
  by_cases hm : signedUnits a m = 0
  · cases a with
    | false => rfl
    | true =>
      simp only [signedUnits, if_true] at hm
      have hunits : m.units = 0 := by omega
      exact absurd (congrArg _ (Magnitude.ext hunits)) h
  · rw [if_neg hm, if_neg hm]

namespace Number

variable {a b c : Number} {x y : Binary64}

/-- Not zero or less; what is no number is not. -/
def IsAbove (a : Number) : Prop := ¬ a ≤ .int 0

/-- Not less than zero; what is no number is not. -/
def IsNotBelow (a : Number) : Prop := .int 0 ≤ a ∨ a = .float .nan

theorem isAbove_nan : (float .nan).IsAbove := nofun

theorem isAbove_infinite : (float (.infinite false)).IsAbove := nofun

theorem IsAbove.of_le (ha : a.IsAbove) (h : a ≤ b) : b.IsAbove := fun hb => ha (le_trans h hb)

theorem IsAbove.isNotBelow (ha : a.IsAbove) : a.IsNotBelow := by
  rcases a with n | _ | (_ | _) | ⟨negative, m⟩
  · rw [IsAbove, int_le_int] at ha
    exact .inl (int_le_int.mpr (Int.not_le.mp ha).le)
  · exact .inr rfl
  · exact .inl rfl
  · exact absurd rfl ha
  · rw [IsAbove, le_iff, position?_zero] at ha
    refine .inl ?_
    rw [le_iff, position?_zero]
    simp only [position?, Binary64.position?, Position.leq?, Position.le, decide_eq_true_eq] at ha ⊢
    omega

theorem isAbove_add_doubles (hx : (float x).IsNotBelow) (hy : (float y).IsAbove) :
    (float (x.add y)).IsAbove := by
  rcases hx with hx | ⟨⟨⟩⟩
  · rw [zero_le_float] at hx
    rcases y with _ | (_ | _) | ⟨b, n⟩
    · cases x <;> exact isAbove_nan
    · rcases x with _ | (_ | _) | ⟨a, m⟩
      · exact isAbove_nan
      · exact isAbove_infinite
      · exact absurd hx Binary64.not_finite_le_negInfinite
      · exact isAbove_infinite
    · exact absurd rfl hy
    · rcases x with _ | (_ | _) | ⟨a, m⟩
      · exact isAbove_nan
      · exact isAbove_infinite
      · exact absurd hx Binary64.not_finite_le_negInfinite
      · rw [Binary64.add_comm]
        exact hy.of_le (float_le_float.mpr
          (Binary64.le_add_of_nonneg (Binary64.le_refl nofun) hx ⟨a, m, rfl⟩))
  · cases y <;> exact isAbove_nan

theorem IsNotBelow.toBinary64 (ha : a.IsNotBelow) (hx : a.toBinary64 = .ok x) :
    (float x).IsNotBelow := by
  rcases ha with ha | rfl
  · exact .inl (zero_le_float.mpr (toBinary64_nonneg ha hx))
  · cases hx
    exact .inr rfl

theorem IsAbove.toBinary64 (ha : a.IsAbove) (hx : a.toBinary64 = .ok x) : (float x).IsAbove := by
  cases a with
  | float y =>
    cases hx
    exact ha
  | int n =>
    have hone : (int 1).toBinary64 = .ok (.ofDecimal false 1 0) := by
      rw [toBinary64_int]
      decide +kernel
    have habove : (float (.ofDecimal false 1 0)).IsAbove :=
      Bool.eq_false_iff.mp (by decide +kernel)
    rw [IsAbove, int_le_int] at ha
    exact habove.of_le (float_le_float.mpr
      (toBinary64_mono (int_le_int.mpr (Int.not_le.mp ha)) hone hx))

theorem isAbove_add (ha : a.IsNotBelow) (hb : b.IsAbove) (hc : a.add b = .ok c) : c.IsAbove := by
  rcases add_eq_ok hc with ⟨m, n, rfl, rfl, rfl⟩ | ⟨x, y, hx, hy, rfl⟩
  · rcases ha with ha | ⟨⟨⟩⟩
    rw [IsAbove, int_le_int] at hb ⊢
    rw [int_le_int] at ha
    omega
  · exact isAbove_add_doubles (ha.toBinary64 hx) (hb.toBinary64 hy)

theorem add_float_zero (ha : a ≠ float (.zero true)) (negative : Bool) :
    a.add (float (.zero negative)) = a.add (float (.zero false)) := by
  have hdoubles : ∀ sign, a.add (float (.zero sign)) =
      (do return float ((← a.toBinary64).add (.zero sign))) := by
    intro sign
    cases a <;> rfl
  rw [hdoubles, hdoubles]
  cases hx : a.toBinary64 with
  | error e => rfl
  | ok x =>
    exact congrArg (fun y => Except.ok (float y))
      (Binary64.add_zero_congr (toBinary64_ne_negZero ha hx) negative)

end Number

namespace Value

theorem isAbove_foldlM {vs : List Value} {start s : Number} (hstart : start.IsAbove)
    (h : ∀ v ∈ vs, ∀ a, v.number? = some a → a.IsAbove)
    (hs : vs.foldlM (fun total v => do total.add (← v.number)) start = .ok s) : s.IsAbove := by
  induction vs generalizing start with
  | nil =>
    cases hs
    exact hstart
  | cons v rest ih =>
    obtain ⟨a, next, ha, hnext, hrest⟩ := foldlM_cons_eq_ok.mp hs
    have habove := h v List.mem_cons_self a ha
    exact ih (Number.isAbove_add hstart.isNotBelow habove hnext)
      (fun w hw => h w (List.mem_cons_of_mem v hw)) hrest

theorem isAbove_sum {vs : List Value} {s : Number} (hne : vs ≠ [])
    (h : ∀ v ∈ vs, ∀ a, v.number? = some a → a.IsAbove) (hs : sum vs = .ok s) : s.IsAbove := by
  cases vs with
  | nil => exact absurd rfl hne
  | cons v rest =>
    obtain ⟨a, next, ha, hnext, hrest⟩ := foldlM_cons_eq_ok.mp hs
    have hzero : (Number.int 0).IsNotBelow := .inl (Number.int_le_int.mpr le_rfl)
    exact isAbove_foldlM (Number.isAbove_add hzero (h v List.mem_cons_self a ha) hnext)
      (fun w hw => h w (List.mem_cons_of_mem v hw)) hrest

theorem orZeroPoints_float (x : Binary64) :
    (float x).orZeroPoints = float x ∨
      ∃ negative, x = .zero negative ∧ (float x).orZeroPoints = float (.zero false) := by
  rcases x with _ | a | ⟨a, m⟩
  · exact .inl rfl
  · exact .inl rfl
  · by_cases hm : m.units = 0
    · obtain rfl : m = .zero := Magnitude.ext hm
      exact .inr ⟨a, rfl, rfl⟩
    · exact .inl (if_pos (by simpa [holds] using hm))

theorem foldlM_orZeroPoints {vs : List Value} {start : Number}
    (hstart : start ≠ .float (.zero true)) (h : ∀ v ∈ vs, v.holds = true ∨ ∃ x, v = .float x) :
    (vs.map orZeroPoints).foldlM (fun total v => do total.add (← v.number)) start =
      vs.foldlM (fun total v => do total.add (← v.number)) start := by
  induction vs generalizing start with
  | nil => rfl
  | cons v rest ih =>
    have hsummand : (do start.add (← v.orZeroPoints.number)) =
        (do start.add (← v.number)) := by
      rcases h v List.mem_cons_self with hv | ⟨x, rfl⟩
      · rw [orZeroPoints, if_pos hv]
      · rcases orZeroPoints_float x with hx | ⟨negative, rfl, hx⟩
        · rw [hx]
        · rw [hx]
          exact (Number.add_float_zero hstart negative).symm
    rw [List.map_cons, List.foldlM_cons, List.foldlM_cons, hsummand]
    cases hnext : (do start.add (← v.number)) with
    | error e => rfl
    | ok next =>
      obtain ⟨a, -, hadd⟩ := bind_eq_ok.mp hnext
      exact ih (Number.add_ne_negZero hstart hadd) fun w hw => h w (List.mem_cons_of_mem v hw)

/-- Doubles that count as zero may as well be left as they are. -/
theorem sum_orZeroPoints {vs : List Value} (h : ∀ v ∈ vs, v.holds = true ∨ ∃ x, v = .float x) :
    sum (vs.map orZeroPoints) = sum vs :=
  foldlM_orZeroPoints nofun h

end Value

end ExamAdmission
