import ExamAdmission.Proofs.Document.NumberOrder

/-! Sums of numbers of both kinds. While whole numbers stay small a sum is that of the doubles, and
then raising a summand never lowers it. -/

namespace ExamAdmission

attribute [local irreducible] rangeEnd Binary64.unit

/-- A step between doubles: a power of two of units that is one at most. -/
def IsStep (step : ℕ) : Prop := (∃ s, step = Nat.pow 2 s) ∧ step ≤ Binary64.unit

theorem isStep_unit : IsStep Binary64.unit := ⟨⟨1074, Binary64.unit_eq⟩, le_rfl⟩

theorem Magnitude.exists_of_le {n step : ℕ} (h : n ≤ 2 ^ 53) (hstep : IsStep step) :
    ∃ m : Magnitude, m.units = n * step := by
  obtain ⟨⟨s, rfl⟩, hle⟩ := hstep
  have hlt : n * Nat.pow 2 s < rangeEnd := by
    have hend := Binary64.unit_mul_lt_rangeEnd
    exact Nat.lt_of_le_of_lt (Nat.mul_le_mul h hle) (by omega)
  rcases Nat.lt_or_eq_of_le h with h | rfl
  · exact ⟨⟨_, hlt, n, s, h, rfl⟩, rfl⟩
  · refine ⟨⟨_, hlt, Nat.pow 2 52, s + 1, by decide, ?_⟩, rfl⟩
    show 2 ^ 53 * 2 ^ s = 2 ^ 52 * 2 ^ (s + 1)
    ring

namespace Binary64

variable {x y : Binary64} {p q : ℤ} {m : Magnitude} {negative : Bool}

theorem signedUnits_eq_signed : ((signedUnits negative m : ℤ) : ℚ) = signed negative m.units := by
  cases negative <;> simp [signedUnits, signed]

theorem exists_of_position? (h : x.position? = some (.at p)) :
    ∃ negative m, x = finite negative m ∧ signedUnits negative m = p := by
  rcases x with _ | (_ | _) | ⟨negative, m⟩
  · cases h
  · cases h
  · cases h
  · exact ⟨negative, m, rfl, by simpa [position?] using h⟩

theorem Nearest.position? (h : Nearest negative |(p : ℚ)| x)
    (hp : signed negative |(p : ℚ)| = p) (hm : |p| = m.units) :
    x.position? = some (.at p) := by
  have habs : |(p : ℚ)| = m.units := by exact_mod_cast hm
  rw [habs] at h hp
  have hplace : signedUnits negative m = p := by exact_mod_cast signedUnits_eq_signed.trans hp
  rw [h.eq_finite, Binary64.position?, hplace]

theorem position?_add (hx : x.position? = some (.at p)) (hy : y.position? = some (.at q))
    (hm : |p + q| = m.units) : (x.add y).position? = some (.at (p + q)) := by
  obtain ⟨s, i, rfl, rfl⟩ := exists_of_position? hx
  obtain ⟨t, j, rfl, rfl⟩ := exists_of_position? hy
  obtain ⟨v, hv, hsign⟩ := nearest_add s t i j
  exact hv.position? hsign hm

end Binary64

theorem Binary64.ofInt?_of_units {n : ℤ} {m : Magnitude} (h : m.units = n.natAbs * unit) :
    ofInt? n = some (finite (decide (n < 0)) m) := by
  have hexact : nearestUnits (n.natAbs * unit) 1 = m.units := by
    have hr := nearestUnits_one_rounds m.units
    rw [← h]
    exact_mod_cast hr.unique (rounds_units m)
  have hlt : nearestUnits (n.natAbs * unit) 1 < rangeEnd := hexact ▸ m.lt_rangeEnd
  have hnear : Magnitude.nearest? (n.natAbs * unit) 1 = some m :=
    (dif_pos hlt).trans (congrArg some (Magnitude.ext hexact))
  rw [ofInt?, hnear, Option.map_some]

theorem Binary64.ofInt?_of_le {n : ℤ} (h : n.natAbs ≤ 2 ^ 53) :
    ∃ negative m, ofInt? n = some (finite negative m) ∧ signedUnits negative m = n * unit := by
  obtain ⟨m, hm⟩ := Magnitude.exists_of_le h isStep_unit
  refine ⟨decide (n < 0), m, ofInt?_of_units hm, ?_⟩
  rw [signedUnits, hm]
  by_cases hn : n < 0
  · rw [decide_eq_true hn, if_pos rfl, Nat.cast_mul, Int.ofNat_natAbs_of_nonpos hn.le]
    ring
  · rw [decide_eq_false hn, if_neg Bool.false_ne_true, Nat.cast_mul,
      Int.natAbs_of_nonneg (Int.not_lt.mp hn)]

theorem Binary64.Nearest.lt_one_of_zero {negative sign : Bool} {q : ℚ}
    (h : Nearest negative q (zero sign)) : q < 1 := by
  cases h with
  | within _ hzero =>
    by_contra hq
    have hone : nearestUnits 1 1 ≤ 0 := by
      exact_mod_cast (nearestUnits_one_rounds 1).mono hzero (by exact_mod_cast not_lt.mp hq)
    exact absurd hone (by decide +kernel)

theorem Binary64.add_ne_negZero {x : Binary64} (h : x ≠ zero true) (y : Binary64) :
    x.add y ≠ zero true := by
  rcases x with _ | a | ⟨a, m⟩ <;> rcases y with _ | b | ⟨b, n⟩
  case finite.finite =>
    intro hadd
    simp only [add] at hadd
    split at hadd
    · rename_i hsum
      obtain ⟨hsigns, -⟩ := Binary64.finite.inj hadd
      obtain ⟨rfl, rfl⟩ := (Bool.and_eq_true _ _).mp hsigns
      simp only [signedUnits, if_true] at hsum
      have hunits : m.units = 0 := by omega
      exact h (congrArg _ (Magnitude.ext hunits))
    · rename_i hsum
      have hsmall := (hadd ▸ nearest_ofUnits _ _ Nat.one_pos).lt_one_of_zero
      rw [Nat.cast_one, div_one, Nat.cast_lt_one] at hsmall
      exact hsum (Int.natAbs_eq_zero.mp hsmall)
  case infinite.infinite =>
    cases a <;> cases b <;> rintro ⟨⟩
  all_goals rintro ⟨⟩

namespace Number

variable {a b c : Number} {x y : Binary64}

/-- The size of a whole number; doubles count for nothing. -/
def whole : Number → ℕ
  | .int n => n.natAbs
  | .float _ => 0

theorem position?_toBinary64 (h : a.whole ≤ 2 ^ 53) (hx : a.toBinary64 = .ok x) :
    (float x).position? = a.position? := by
  cases a with
  | float y =>
    cases hx
    rfl
  | int n =>
    obtain ⟨negative, m, hn, hm⟩ := Binary64.ofInt?_of_le h
    cases (toBinary64_int.mp hx).symm.trans hn
    rw [position?, position?, Binary64.position?, hm, Position.ofInt]

theorem add_eq_ok (h : a.add b = .ok c) :
    (∃ m n, a = int m ∧ b = int n ∧ c = int (m + n)) ∨
      ∃ x y, a.toBinary64 = .ok x ∧ b.toBinary64 = .ok y ∧ c = float (x.add y) := by
  have hdoubles : (do return float ((← a.toBinary64).add (← b.toBinary64))) = Except.ok c →
      ∃ x y, a.toBinary64 = .ok x ∧ b.toBinary64 = .ok y ∧ c = float (x.add y) := by
    intro hsum
    obtain ⟨x, hx, hrest⟩ := bind_eq_ok.mp hsum
    obtain ⟨y, hy, ⟨⟩⟩ := bind_eq_ok.mp hrest
    exact ⟨x, y, hx, hy, rfl⟩
  cases a with
  | int m =>
    cases b with
    | int n =>
      cases h
      exact .inl ⟨m, n, rfl, rfl, rfl⟩
    | float y => exact .inr (hdoubles h)
  | float x => exact .inr (hdoubles h)

theorem add_doubles (h : ∀ m n, ¬ (a = int m ∧ b = int n))
    (hx : a.toBinary64 = .ok x) (hy : b.toBinary64 = .ok y) :
    a.add b = .ok (float (x.add y)) := by
  have hsum : (do return float ((← a.toBinary64).add (← b.toBinary64))) =
      Except.ok (float (x.add y)) := by
    rw [hx, hy]
    rfl
  cases a with
  | int m =>
    cases b with
    | int n => exact absurd ⟨rfl, rfl⟩ (h m n)
    | float y => exact hsum
  | float x => exact hsum

theorem toBinary64_ne_negZero (ha : a ≠ float (.zero true)) (hx : a.toBinary64 = .ok x) :
    x ≠ .zero true := by
  cases a with
  | float y =>
    cases hx
    exact fun h => ha (congrArg _ h)
  | int n =>
    rintro rfl
    have hn := toBinary64_int.mp hx
    have hsmall := (Binary64.nearest_ofInt hn).lt_one_of_zero
    obtain ⟨m, -, hm⟩ := Option.map_eq_some_iff.mp hn
    obtain ⟨hsign, -⟩ := Binary64.finite.inj hm
    have hsize : 1 ≤ n.natAbs * Binary64.unit :=
      Nat.mul_pos (Int.natAbs_pos.mpr (of_decide_eq_true hsign).ne)
        (by exact_mod_cast Binary64.unit_pos)
    exact absurd hsmall (not_lt.mpr (by exact_mod_cast hsize))

theorem add_ne_negZero (ha : a ≠ float (.zero true)) (hc : a.add b = .ok c) :
    c ≠ float (.zero true) := by
  rcases add_eq_ok hc with ⟨m, n, rfl, rfl, rfl⟩ | ⟨x, y, hx, -, rfl⟩
  · exact nofun
  · exact fun h => Binary64.add_ne_negZero (toBinary64_ne_negZero ha hx) y (float.inj h)

theorem add_exact (h : a.whole + b.whole ≤ 2 ^ 53) (hc : a.add b = .ok c) :
    ∃ x y, a.toBinary64 = .ok x ∧ b.toBinary64 = .ok y ∧
      c.position? = (float (x.add y)).position? := by
  rcases add_eq_ok hc with ⟨m, n, rfl, rfl, rfl⟩ | ⟨x, y, hx, hy, rfl⟩
  · have hwhole : m.natAbs + n.natAbs ≤ 2 ^ 53 := h
    obtain ⟨s, i, hm, hi⟩ := Binary64.ofInt?_of_le (n := m) (by omega)
    obtain ⟨t, j, hn, hj⟩ := Binary64.ofInt?_of_le (n := n) (by omega)
    obtain ⟨k, hk⟩ := Magnitude.exists_of_le (n := (m + n).natAbs) (by omega) isStep_unit
    refine ⟨_, _, toBinary64_int.mpr hm, toBinary64_int.mpr hn, ?_⟩
    have hsum : |m * (Binary64.unit : ℤ) + n * Binary64.unit| = k.units := by
      rw [← Int.add_mul, abs_mul, Int.abs_eq_natAbs, Nat.abs_cast, hk, Nat.cast_mul]
    have hi' : (Binary64.finite s i).position? = some (.at (m * Binary64.unit)) := by
      rw [Binary64.position?, hi]
    have hj' : (Binary64.finite t j).position? = some (.at (n * Binary64.unit)) := by
      rw [Binary64.position?, hj]
    have hplace := Binary64.position?_add hi' hj' hsum
    rw [position?, position?, hplace, Position.ofInt, Int.add_mul]
  · exact ⟨x, y, hx, hy, rfl⟩

theorem whole_add (hc : a.add b = .ok c) : c.whole ≤ a.whole + b.whole := by
  rcases add_eq_ok hc with ⟨m, n, rfl, rfl, rfl⟩ | ⟨x, y, -, -, rfl⟩
  · exact Int.natAbs_add_le m n
  · exact Nat.zero_le _

theorem add_le_add {a' b' c' : Number} (ha : a ≤ a') (hb : b ≤ b') (hf : b.IsFinite)
    (hf' : b'.IsFinite) (h : a.whole + b.whole ≤ 2 ^ 53) (h' : a'.whole + b'.whole ≤ 2 ^ 53)
    (hc : a.add b = .ok c) (hc' : a'.add b' = .ok c') : c ≤ c' := by
  obtain ⟨x, y, hx, hy, hp⟩ := add_exact h hc
  obtain ⟨x', y', hx', hy', hp'⟩ := add_exact h' hc'
  exact (le_congr hp hp').mpr (Binary64.add_le_add (toBinary64_mono ha hx hx')
    (toBinary64_mono hb hy hy') (hf.toBinary64 hy) (hf'.toBinary64 hy'))

theorem le_add_of_nonneg (h0 : int 0 ≤ b) (hf : b.IsFinite) (ha : a ≤ a)
    (h : a.whole + b.whole ≤ 2 ^ 53) (hc : a.add b = .ok c) : a ≤ c := by
  obtain ⟨x, y, hx, hy, hp⟩ := add_exact h hc
  have hplace := position?_toBinary64 (Nat.le_of_add_right_le h) hx
  exact (le_congr hplace.symm hp).mpr (Binary64.le_add_of_nonneg (toBinary64_mono ha hx hx)
    (toBinary64_nonneg h0 hy) (hf.toBinary64 hy))

theorem exists_zero_add (a : Number) :
    ∃ c, (int 0).add a = .ok c ∧ c.position? = a.position? := by
  cases a with
  | int n => exact ⟨_, rfl, by rw [Int.zero_add]⟩
  | float x =>
    refine ⟨_, add_doubles (by simp) toBinary64_zero rfl, ?_⟩
    rcases x with _ | a | ⟨a, m⟩
    · rfl
    · rfl
    · have hsize : |0 + Binary64.signedUnits a m| = m.units := by
        cases a <;> simp [Binary64.signedUnits]
      have hplace : (Binary64.finite a m).position? = some (.at (Binary64.signedUnits a m)) := rfl
      have hzero : (Binary64.zero false).position? = some (.at 0) := position?_float_zero false
      rw [position?, position?, Binary64.position?_add hzero hplace hsize, hplace, Int.zero_add]

theorem add_nonneg (ha : int 0 ≤ a) (hb : int 0 ≤ b) (hf : b.IsFinite) (h : a.add b = .ok c) :
    int 0 ≤ c := by
  rcases add_eq_ok h with ⟨m, n, rfl, rfl, rfl⟩ | ⟨x, y, hx, hy, rfl⟩
  · rw [int_le_int] at ha hb ⊢
    exact Int.add_nonneg ha hb
  · rw [zero_le_float]
    exact Binary64.add_le_add (toBinary64_nonneg ha hx) (toBinary64_nonneg hb hy) ⟨_, _, rfl⟩
      (hf.toBinary64 hy)

end Number

namespace Value

/-- The size of a whole number among the values. -/
def whole (v : Value) : ℕ := (v.number?.map Number.whole).getD 0

theorem whole_of_number? {v : Value} {a : Number} (h : v.number? = some a) :
    v.whole = a.whole := by
  rw [whole, h]
  rfl

theorem IsFinite.of_number? {v : Value} {a : Number} (hf : v.IsFinite) (h : v.number? = some a) :
    a.IsFinite := by
  obtain ⟨b, hb, hfinite⟩ := hf
  cases hb.symm.trans h
  exact hfinite

/-- Finite numbers of which the whole ones are small enough that no sum of them is rounded. -/
def Exact (vs : List Value) : Prop := (∀ v ∈ vs, v.IsFinite) ∧ (vs.map whole).sum ≤ 2 ^ 53

theorem foldlM_cons_eq_ok {start s : Number} {v : Value} {vs : List Value} :
    (v :: vs).foldlM (fun total v => do total.add (← v.number)) start = .ok s ↔
      ∃ a next, v.number? = some a ∧ start.add a = .ok next ∧
        vs.foldlM (fun total v => do total.add (← v.number)) next = .ok s := by
  have hnumber : ∀ a, v.number = .ok a ↔ v.number? = some a := by
    intro a
    cases h : v.number? <;> simp [number, h]
  simp only [List.foldlM_cons, bind_eq_ok, hnumber]
  constructor
  · rintro ⟨next, ⟨a, ha, hadd⟩, hs⟩
    exact ⟨a, next, ha, hadd, hs⟩
  · rintro ⟨a, next, ha, hadd, hs⟩
    exact ⟨next, ⟨a, ha, hadd⟩, hs⟩

theorem exists_sum_toList (found : Option Value) (h : ∀ v ∈ found, ∃ a, v.number? = some a) :
    ∃ a c, sum found.toList = .ok c ∧
      (found.getD (.float (.zero false))).number? = some a ∧ c.position? = a.position? := by
  cases found with
  | none =>
    exact ⟨_, _, rfl, rfl, Number.position?_zero.trans (Number.position?_float_zero false).symm⟩
  | some v =>
    obtain ⟨a, ha⟩ := h v rfl
    obtain ⟨c, hc, hplace⟩ := a.exists_zero_add
    exact ⟨a, c, foldlM_cons_eq_ok.mpr ⟨a, c, ha, hc, rfl⟩, ha, hplace⟩

theorem sum_induction {vs : List Value} {s : Number} (P : Number → Prop) (h0 : P (.int 0))
    (hstep : ∀ total v a, P total → v ∈ vs → v.number? = some a → ∀ next, total.add a = .ok next →
      P next) (hs : sum vs = .ok s) : P s := by
  unfold sum at hs
  generalize Number.int 0 = start at h0 hs
  induction vs generalizing start with
  | nil =>
    cases hs
    exact h0
  | cons v rest ih =>
    obtain ⟨a, next, hv, hadd, hrest⟩ := foldlM_cons_eq_ok.mp hs
    have hmem : ∀ w ∈ rest, w ∈ v :: rest := fun w => List.mem_cons_of_mem v
    exact ih (fun total w b hp hw => hstep total w b hp (hmem w hw)) next
      (hstep start v a h0 List.mem_cons_self hv next hadd) hrest

theorem sum_nonneg {vs : List Value} {s : Number}
    (h : ∀ v ∈ vs, v.IsFinite ∧ (int 0).AtMost v) (hs : sum vs = .ok s) : .int 0 ≤ s := by
  refine sum_induction (.int 0 ≤ ·) (Number.int_le_int.mpr le_rfl) ?_ hs
  rintro total v a htotal hv ha next hnext
  obtain ⟨⟨b, hb, hf⟩, ⟨_, c, ⟨⟩, hc, hle⟩⟩ := h v hv
  cases ha.symm.trans hb
  cases ha.symm.trans hc
  exact Number.add_nonneg htotal hle hf hnext

end Value

end ExamAdmission
