import ExamAdmission.Proofs.Arithmetic.RelativeError
import ExamAdmission.Proofs.Document.Sums

/-! How far a sum of points is from the exact one. Every summand is rounded twice at most, once to a
double and once with the sum. -/

namespace ExamAdmission

attribute [local irreducible] rangeEnd Binary64.unit

namespace Binary64

theorem signedUnits_of_nonneg {negative : Bool} {m : Magnitude}
    (h : .zero false ≤ finite negative m) : signedUnits negative m = m.units := by
  have hle : signedUnits false .zero ≤ signedUnits negative m := finite_le_finite.mp h
  cases negative with
  | false => rfl
  | true =>
    simp only [signedUnits, Magnitude.zero, Bool.false_eq_true, if_false, if_true] at hle ⊢
    omega

theorem Within.nearest {k exact m : ℕ} {negative : Bool} {x : Binary64} (h : Within k exact m)
    (hk : k + 1 ≤ 2 ^ 49 + 1) (he : 2 * exact < rangeEnd) (hx : Nearest negative m x) :
    ∃ n, x = finite negative n ∧ Within (k + 1) exact n.units := by
  cases hx with
  | within n hn => exact ⟨n, rfl, h.round hn⟩
  | beyond u hu hr => exact absurd ((h.round hu).lt_rangeEnd hk he) (Nat.not_lt.mpr hr)

end Binary64

namespace Number

variable {a b : Number} {k exact exact' : ℕ}

/-- The distance from zero, in units. -/
def units : Number → ℕ
  | .int n => n.natAbs * Binary64.unit
  | .float (.finite _ m) => m.units
  | .float _ => 0

theorem toBinary64_int_of_lt {n : ℤ} (h : nearestUnits (int n).units 1 < rangeEnd) :
    ∃ negative m, (int n).toBinary64 = .ok (.finite negative m) ∧
      m.units = nearestUnits (int n).units 1 := by
  let m : Magnitude := ⟨_, h, nearestUnits_significant (int n).units 1⟩
  have hm : Magnitude.nearest? (n.natAbs * Binary64.unit) 1 = some m := dif_pos h
  refine ⟨decide (n < 0), m, toBinary64_int.mpr ?_, rfl⟩
  rw [Binary64.ofInt?, hm, Option.map_some]

theorem position?_units (h0 : int 0 ≤ a) (hf : a.IsFinite) :
    a.position? = some (.at a.units) := by
  cases a with
  | int n =>
    have hn : ((n.natAbs * Binary64.unit : ℕ) : ℤ) = n * Binary64.unit := by
      rw [Nat.cast_mul, Int.natAbs_of_nonneg (int_le_int.mp h0)]
    rw [position?, Position.ofInt, units, hn]
  | float x =>
    obtain ⟨negative, m, rfl⟩ := isFinite_float.mp hf
    have hm := Binary64.signedUnits_of_nonneg (zero_le_float.mp h0)
    rw [position?, Binary64.position?, hm, units]

theorem units_le (h0 : int 0 ≤ a) (h : a ≤ b) (ha : a.IsFinite) (hb : b.IsFinite) :
    a.units ≤ b.units := by
  have hb0 := le_trans h0 h
  rw [le_iff, position?_units h0 ha, position?_units hb0 hb] at h
  simpa [Position.leq?, Position.le] using h

/-- A number that is not negative and came from a number of units by so many roundings. -/
structure Tracks (k exact : ℕ) (a : Number) : Prop where
  nonneg : int 0 ≤ a
  finite : a.IsFinite
  within : Binary64.Within k exact a.units

theorem Tracks.self (k : ℕ) (h0 : int 0 ≤ a) (hf : a.IsFinite) : a.Tracks k a.units :=
  ⟨h0, hf, .self k a.units⟩

theorem Tracks.toBinary64 (h : a.Tracks k exact) (hk : k + 1 ≤ 2 ^ 49 + 1)
    (he : 2 * exact < rangeEnd) : ∃ negative m, a.toBinary64 = .ok (.finite negative m) ∧
      Binary64.Within (k + 1) exact m.units := by
  cases a with
  | float x =>
    obtain ⟨negative, m, rfl⟩ := isFinite_float.mp h.finite
    exact ⟨negative, m, rfl, h.within.mono k.le_succ⟩
  | int n =>
    have hwithin := h.within.round (nearestUnits_one_rounds _)
    obtain ⟨negative, m, hm, hunits⟩ := toBinary64_int_of_lt (hwithin.lt_rangeEnd hk he)
    exact ⟨negative, m, hm, hunits ▸ hwithin⟩

theorem Tracks.add (ha : a.Tracks k exact) (hb : b.Tracks k exact') (hk : k + 2 ≤ 2 ^ 49 + 1)
    (he : 2 * (exact + exact') < rangeEnd) :
    ∃ c, a.add b = .ok c ∧ c.Tracks (k + 2) (exact + exact') := by
  by_cases hints : ∃ m n, a = int m ∧ b = int n
  · obtain ⟨m, n, rfl, rfl⟩ := hints
    have hm : 0 ≤ m := int_le_int.mp ha.nonneg
    have hn : 0 ≤ n := int_le_int.mp hb.nonneg
    refine ⟨_, rfl, add_nonneg ha.nonneg hb.nonneg hb.finite rfl, isFinite_int _, ?_⟩
    have hunits : (int (m + n)).units = (int m).units + (int n).units := by
      rw [units, units, units, ← Nat.add_mul]
      congr 1
      omega
    rw [hunits]
    exact (ha.within.add hb.within).mono (by omega)
  · have hdoubles : ∀ m n, ¬ (a = int m ∧ b = int n) := fun m n h => hints ⟨m, n, h⟩
    obtain ⟨s, m, hx, hm⟩ := ha.toBinary64 (by omega) (by omega)
    obtain ⟨t, n, hy, hn⟩ := hb.toBinary64 (by omega) (by omega)
    have hadd := add_doubles hdoubles hx hy
    have hnonneg := add_nonneg ha.nonneg hb.nonneg hb.finite hadd
    have hs := Binary64.signedUnits_of_nonneg (toBinary64_nonneg ha.nonneg hx)
    have ht := Binary64.signedUnits_of_nonneg (toBinary64_nonneg hb.nonneg hy)
    obtain ⟨negative, hnear, -⟩ := Binary64.nearest_add s t m n
    have habs : |((m.units + n.units : ℤ) : ℚ)| = (m.units + n.units : ℕ) := by
      rw [← Nat.cast_add, Int.cast_natCast, Nat.abs_cast]
    rw [hs, ht, habs] at hnear
    obtain ⟨z, hz, hwithin⟩ := (hm.add hn).nearest (by omega) he hnear
    exact ⟨_, hadd, hnonneg, isFinite_float.mpr ⟨negative, z, hz⟩, by rw [hz]; exact hwithin⟩

end Number

namespace Value

/-- A finite number that is not negative. -/
def IsPoints (v : Value) : Prop := ∃ a, v.number? = some a ∧ .int 0 ≤ a ∧ a.IsFinite

/-- The points of a value in units. -/
def units (v : Value) : ℕ := (v.number?.map Number.units).getD 0

theorem units_of_number? {v : Value} {a : Number} (h : v.number? = some a) :
    v.units = a.units := by
  rw [units, h]
  rfl

theorem foldlM_tracks {vs : List Value} {start : Number} {k exact : ℕ}
    (hvs : ∀ v ∈ vs, v.IsPoints) (h : start.Tracks k exact) (hk : k + 2 * vs.length ≤ 2 ^ 49)
    (he : 2 * (exact + (vs.map units).sum) < rangeEnd) :
    ∃ s, vs.foldlM (fun total v => do total.add (← v.number)) start = .ok s ∧
      s.Tracks (k + 2 * vs.length) (exact + (vs.map units).sum) := by
  induction vs generalizing start k exact with
  | nil => exact ⟨start, rfl, h⟩
  | cons v rest ih =>
    obtain ⟨⟨a, ha, h0, hf⟩, hrest⟩ := List.forall_mem_cons.mp hvs
    simp only [List.length_cons, List.map_cons, List.sum_cons, units_of_number? ha] at hk he ⊢
    obtain ⟨next, hadd, hnext⟩ := h.add (.self k h0 hf) (by omega) (by omega)
    obtain ⟨s, hs, htracks⟩ := ih hrest hnext (by omega) (by omega)
    refine ⟨s, foldlM_cons_eq_ok.mpr ⟨a, next, ha, hadd, hs⟩, ?_⟩
    rwa [show k + 2 * (rest.length + 1) = k + 2 + 2 * rest.length by omega, ← Nat.add_assoc]

/-- Points of which the exact sum is below half of the range have a sum. -/
theorem sum_tracks {vs : List Value} (hvs : ∀ v ∈ vs, v.IsPoints) (hlen : vs.length ≤ 2 ^ 48)
    (he : 2 * (vs.map units).sum < rangeEnd) :
    ∃ s, sum vs = .ok s ∧ s.Tracks (2 * vs.length) (vs.map units).sum := by
  have hzero : (Number.int 0).Tracks 0 0 := by
    have htracks := Number.Tracks.self 0 (Number.int_le_int.mpr le_rfl) (Number.isFinite_int 0)
    rwa [show (Number.int 0).units = 0 from Nat.zero_mul _] at htracks
  have hfold := foldlM_tracks hvs hzero (by omega) (by rwa [Nat.zero_add])
  rwa [Nat.zero_add, Nat.zero_add] at hfold

end Value

end ExamAdmission
