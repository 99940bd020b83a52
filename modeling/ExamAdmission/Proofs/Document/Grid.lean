import ExamAdmission.Proofs.Document.Sums
import ExamAdmission.Proofs.Document.Tables

/-! Sums of points on a grid. Multiples of one step, which are not too many, are added without any
rounding, and so in any order. -/

namespace ExamAdmission

attribute [local irreducible] rangeEnd Binary64.unit

theorem IsStep.exists_magnitude {step : ℕ} {p : ℤ} (h : IsStep step) (hp : (step : ℤ) ∣ p)
    (hsize : p.natAbs ≤ 2 ^ 53 * step) : ∃ m : Magnitude, |p| = m.units := by
  obtain ⟨k, rfl⟩ := hp
  have hpos : 0 < step := by
    obtain ⟨⟨s, rfl⟩, -⟩ := h
    exact Nat.two_pow_pos s
  rw [Int.natAbs_mul, Int.natAbs_natCast, Nat.mul_comm] at hsize
  obtain ⟨m, hm⟩ := Magnitude.exists_of_le (Nat.le_of_mul_le_mul_right hsize hpos) h
  refine ⟨m, ?_⟩
  rw [abs_mul, Nat.abs_cast, Int.abs_eq_natAbs, hm, Nat.cast_mul, mul_comm]

namespace Number

variable {a b c : Number} {p q : ℤ} {step : ℕ} {ints : Bool}

def isInt : Number → Bool
  | .int _ => true
  | .float _ => false

/-- What stands at one place is the same, except for the kind of number and the sign of zero. -/
theorem eq_of_position? (ha : a.position? = some (.at p)) (hb : b.position? = some (.at p))
    (hkind : a.isInt = b.isInt) (hsign : a ≠ float (.zero true))
    (hsign' : b ≠ float (.zero true)) : a = b := by
  have hunit : (Binary64.unit : ℤ) ≠ 0 := by exact_mod_cast Binary64.unit_pos.ne'
  cases a with
  | int m =>
    cases b with
    | int n =>
      have hmn : m * (Binary64.unit : ℤ) = n * Binary64.unit := by
        simpa [position?, Position.ofInt] using ha.trans hb.symm
      rw [mul_right_cancel₀ hunit hmn]
    | float y => cases hkind
  | float x =>
    cases b with
    | int n => cases hkind
    | float y =>
      obtain ⟨s, i, rfl, hi⟩ := Binary64.exists_of_position? ha
      obtain ⟨t, j, rfl, hj⟩ := Binary64.exists_of_position? hb
      rcases Binary64.eq_or_zero_of_units (hi.trans hj.symm) with he | ⟨he, he'⟩
      · rw [he]
      · rw [he] at hsign ⊢
        rw [he'] at hsign' ⊢
        cases s with
        | true => exact absurd rfl hsign
        | false =>
          cases t with
          | true => exact absurd rfl hsign'
          | false => rfl

theorem position?_toBinary64_of_units {x : Binary64} {m : Magnitude}
    (ha : a.position? = some (.at p)) (hx : a.toBinary64 = .ok x) (hm : |p| = m.units) :
    x.position? = some (.at p) := by
  obtain ⟨negative, hn, hsign⟩ := nearest_toBinary64 hx ha
  exact hn.position? hsign hm

/-- What a sum is known by: its place, its kind, and that it is no negative zero. -/
structure IsSum (a : Number) (p : ℤ) (ints : Bool) : Prop where
  position : a.position? = some (.at p)
  kind : a.isInt = ints
  sign : a ≠ float (.zero true)

theorem IsSum.add (ha : a.IsSum p ints) (hb : b.position? = some (.at q)) (hstep : IsStep step)
    (hp : (step : ℤ) ∣ p) (hq : (step : ℤ) ∣ q)
    (hsize : p.natAbs + q.natAbs ≤ 2 ^ 53 * step) (hc : a.add b = .ok c) :
    c.IsSum (p + q) (ints && b.isInt) := by
  have hkind := ha.kind
  by_cases hints : ∃ m n, a = int m ∧ b = int n
  · obtain ⟨m, n, rfl, rfl⟩ := hints
    cases hc
    have hm : m * (Binary64.unit : ℤ) = p := by
      simpa [position?, Position.ofInt] using ha.position
    have hn : n * (Binary64.unit : ℤ) = q := by simpa [position?, Position.ofInt] using hb
    refine ⟨?_, ?_, by simp⟩
    · rw [position?, Position.ofInt, Int.add_mul, hm, hn]
    · rw [← hkind]
      rfl
  · rcases add_eq_ok hc with ⟨m, n, rfl, rfl, -⟩ | ⟨x, y, hx, hy, rfl⟩
    · exact absurd ⟨m, n, rfl, rfl⟩ hints
    obtain ⟨i, hi⟩ := hstep.exists_magnitude hp (by omega)
    obtain ⟨j, hj⟩ := hstep.exists_magnitude hq (by omega)
    obtain ⟨k, hk⟩ := hstep.exists_magnitude (hp.add hq) (by omega)
    have hxp := position?_toBinary64_of_units ha.position hx hi
    have hyq := position?_toBinary64_of_units hb hy hj
    have hsum := Binary64.position?_add hxp hyq hk
    refine ⟨hsum, ?_, add_ne_negZero ha.sign hc⟩
    cases a with
    | float x =>
      rw [← hkind]
      rfl
    | int m =>
      cases b with
      | int n => exact absurd ⟨m, n, rfl, rfl⟩ hints
      | float y => rw [isInt, isInt, Bool.and_false]

theorem exists_toBinary64 (ha : a.position? = some (.at p)) (hstep : IsStep step)
    (hsize : p.natAbs ≤ 2 ^ 53 * step) :
    ∃ negative m, a.toBinary64 = .ok (.finite negative m) := by
  cases a with
  | float x =>
    obtain ⟨negative, m, rfl, -⟩ := Binary64.exists_of_position? ha
    exact ⟨negative, m, rfl⟩
  | int n =>
    have hunit : 0 < Binary64.unit := by exact_mod_cast Binary64.unit_pos
    have hn : n * (Binary64.unit : ℤ) = p := by
      simpa [position?, Position.ofInt] using ha
    have hle : n.natAbs * Binary64.unit ≤ 2 ^ 53 * Binary64.unit := by
      rw [← hn, Int.natAbs_mul, Int.natAbs_natCast] at hsize
      exact hsize.trans (Nat.mul_le_mul_left _ hstep.2)
    obtain ⟨negative, m, hm, -⟩ := Binary64.ofInt?_of_le (Nat.le_of_mul_le_mul_right hle hunit)
    exact ⟨negative, m, toBinary64_int.mpr hm⟩

theorem exists_add (ha : a.position? = some (.at p)) (hb : b.position? = some (.at q))
    (hstep : IsStep step) (hp : p.natAbs ≤ 2 ^ 53 * step) (hq : q.natAbs ≤ 2 ^ 53 * step) :
    ∃ c, a.add b = .ok c := by
  by_cases hints : ∃ m n, a = int m ∧ b = int n
  · obtain ⟨m, n, rfl, rfl⟩ := hints
    exact ⟨_, rfl⟩
  · obtain ⟨s, i, hx⟩ := exists_toBinary64 ha hstep hp
    obtain ⟨t, j, hy⟩ := exists_toBinary64 hb hstep hq
    exact ⟨_, add_doubles (fun m n h => hints ⟨m, n, h⟩) hx hy⟩

end Number

namespace Value

/-- Where a value stands; one that is no finite number counts as zero. -/
def place (v : Value) : ℤ :=
  match v.number?.bind Number.position? with
  | some (.at k) => k
  | _ => 0

def isInt (v : Value) : Bool := v.number?.any Number.isInt

/-- Whole multiples of a step that add up to 2^53 steps at most, whatever their signs are. -/
structure OnGrid (step : ℕ) (vs : List Value) : Prop where
  finite : ∀ v ∈ vs, v.IsFinite
  multiple : ∀ v ∈ vs, (step : ℤ) ∣ v.place
  size : (vs.map fun v => v.place.natAbs).sum ≤ 2 ^ 53 * step

theorem place_of_number? {v : Value} {a : Number} {p : ℤ} (hv : v.number? = some a)
    (ha : a.position? = some (.at p)) : v.place = p := by
  simp [place, hv, ha]

theorem onGrid_ints (ns : List ℤ) (h : (ns.map Int.natAbs).sum ≤ 2 ^ 53) :
    OnGrid Binary64.unit (ns.map int) where
  finite := List.forall_mem_map.mpr fun n _ => isFinite_int n
  multiple := List.forall_mem_map.mpr fun n _ => dvd_mul_left _ n
  size := by
    have hplace : (fun v : Value => v.place.natAbs) ∘ int = fun n => n.natAbs * Binary64.unit :=
      funext fun n => Int.natAbs_mul n Binary64.unit
    rw [List.map_map, hplace, List.sum_map_mul_right]
    exact Nat.mul_le_mul_right _ h

theorem exists_foldlM_isSum {step : ℕ} {vs : List Value} {start : Number} {p : ℤ} {ints : Bool}
    (hstep : IsStep step) (hfinite : ∀ v ∈ vs, v.IsFinite)
    (hmultiple : ∀ v ∈ vs, (step : ℤ) ∣ v.place) (hp : (step : ℤ) ∣ p)
    (hsize : p.natAbs + (vs.map fun v => v.place.natAbs).sum ≤ 2 ^ 53 * step)
    (hstart : start.IsSum p ints) :
    ∃ s, vs.foldlM (fun total v => do total.add (← v.number)) start = .ok s ∧
      s.IsSum (p + (vs.map place).sum) (ints && vs.all isInt) := by
  induction vs generalizing start p ints with
  | nil => exact ⟨start, rfl, by simpa using hstart⟩
  | cons v rest ih =>
    obtain ⟨hv, hfinite⟩ := List.forall_mem_cons.mp hfinite
    obtain ⟨a, ha, q, hq⟩ := hv
    obtain ⟨hdvd, hmultiple⟩ := List.forall_mem_cons.mp hmultiple
    have hplace := place_of_number? ha hq
    have hint : v.isInt = a.isInt := by simp [isInt, ha]
    simp only [List.map_cons, List.sum_cons, List.all_cons, hplace, hint] at hsize hdvd ⊢
    obtain ⟨next, hadd⟩ := Number.exists_add hstart.position hq hstep (by omega) (by omega)
    have hnext := hstart.add hq hstep hp hdvd (by omega) hadd
    obtain ⟨s, hs, hsum⟩ := ih hfinite hmultiple (hp.add hdvd) (by omega) hnext
    rw [Int.add_assoc, Bool.and_assoc] at hsum
    exact ⟨s, foldlM_cons_eq_ok.mpr ⟨a, next, ha, hadd, hs⟩, hsum⟩

theorem OnGrid.exists_isSum {step : ℕ} {vs : List Value} (h : OnGrid step vs)
    (hstep : IsStep step) :
    ∃ s, sum vs = .ok s ∧ s.IsSum (vs.map place).sum (vs.all isInt) := by
  have hzero : (Number.int 0).IsSum 0 true := ⟨Number.position?_zero, rfl, by simp⟩
  have hsize := h.size
  obtain ⟨s, hs, hsum⟩ :=
    exists_foldlM_isSum hstep h.finite h.multiple (dvd_zero _) (by simpa using hsize) hzero
  exact ⟨s, hs, by simpa using hsum⟩

theorem OnGrid.isSum {step : ℕ} {vs : List Value} {s : Number} (h : OnGrid step vs)
    (hstep : IsStep step) (hs : sum vs = .ok s) :
    s.IsSum (vs.map place).sum (vs.all isInt) := by
  obtain ⟨t, ht, hsum⟩ := h.exists_isSum hstep
  cases hs.symm.trans ht
  exact hsum

theorem OnGrid.natAbs_sum_le {step : ℕ} {vs : List Value} (h : OnGrid step vs) :
    (vs.map place).sum.natAbs ≤ 2 ^ 53 * step := by
  have hsum := (vs.map place).le_sum_of_subadditive Int.natAbs le_rfl Int.natAbs_add_le
  rw [List.map_map] at hsum
  exact hsum.trans h.size

theorem OnGrid.sublist {step : ℕ} {vs ws : List Value} (h : OnGrid step ws)
    (hsub : vs.Sublist ws) : OnGrid step vs := by
  have hle := (hsub.map fun v => v.place.natAbs).sum_le_sum fun _ _ => Nat.zero_le _
  exact ⟨fun v hv => h.finite v (hsub.subset hv), fun v hv => h.multiple v (hsub.subset hv),
    hle.trans h.size⟩

theorem OnGrid.perm {step : ℕ} {vs ws : List Value} (h : OnGrid step vs) (hperm : vs.Perm ws) :
    OnGrid step ws := by
  refine ⟨fun v hv => h.finite v (hperm.mem_iff.mpr hv),
    fun v hv => h.multiple v (hperm.mem_iff.mpr hv), ?_⟩
  rw [← (hperm.map fun v => v.place.natAbs).sum_eq]
  exact h.size

theorem OnGrid.sum_eq_of_perm {step : ℕ} {vs ws : List Value} {s t : Number} (h : OnGrid step vs)
    (hstep : IsStep step) (hperm : vs.Perm ws) (hs : sum vs = .ok s) (ht : sum ws = .ok t) :
    s = t := by
  have hsum := h.isSum hstep hs
  have htsum := (h.perm hperm).isSum hstep ht
  rw [← (hperm.map place).sum_eq] at htsum
  have hkind : vs.all isInt = ws.all isInt := hperm.all_eq
  exact Number.eq_of_position? hsum.position htsum.position
    (hsum.kind.trans (hkind.trans htsum.kind.symm)) hsum.sign htsum.sign

theorem OnGrid.ofList {step : ℕ} {entries : List (Label × Value)}
    (h : OnGrid step (entries.map Prod.snd)) : OnGrid step (Table.ofList entries).values := by
  have hsize := h.size
  rw [List.map_map] at hsize
  exact ⟨fun v hv => h.finite v (Table.mem_values_ofList hv),
    fun v hv => h.multiple v (Table.mem_values_ofList hv),
    (Table.sum_values_ofList (fun v => v.place.natAbs) entries).trans hsize⟩

end Value

end ExamAdmission
