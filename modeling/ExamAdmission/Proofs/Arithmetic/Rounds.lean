import ExamAdmission.Arithmetic.Binary64
import Mathlib.Algebra.Order.Field.Rat
import Mathlib.Tactic

/-! Directions as relations between a rational and the natural number in its place. Quotients of
equal value are rounded alike, and a greater one never to less. -/

namespace ExamAdmission

/-- The natural number that a direction puts in the place of a rational. -/
def Direction.Rounds (d : Direction) (q : ℚ) (n : ℕ) : Prop :=
  match d with
  | .down => n ≤ q ∧ q < n + 1
  | .up => n - 1 < q ∧ q ≤ n
  | .halfUp => n - 1 / 2 ≤ q ∧ q < n + 1 / 2
  | .halfEven => n - 1 / 2 ≤ q ∧ q ≤ n + 1 / 2 ∧ (q = n - 1 / 2 ∨ q = n + 1 / 2 → Even n)

section Rest

variable {den : ℕ}

theorem div_eq_whole_add_rest (num : ℕ) (hden : 0 < den) :
    (num : ℚ) / den = (num / den : ℕ) + (num % den : ℕ) / (den : ℚ) := by
  have hd : (den : ℚ) ≠ 0 := by exact_mod_cast hden.ne'
  rw [div_eq_iff hd, add_mul, div_mul_cancel₀ _ hd, mul_comm]
  exact_mod_cast (Nat.div_add_mod num den).symm

theorem half_le_rest_iff (rest : ℕ) (hden : 0 < den) :
    (1 / 2 : ℚ) ≤ rest / den ↔ den ≤ 2 * rest := by
  rw [le_div_iff₀ (Nat.cast_pos.mpr hden), ← Nat.cast_le (α := ℚ)]
  push_cast
  constructor <;> intro h <;> linarith

theorem rest_le_half_iff (rest : ℕ) (hden : 0 < den) :
    (rest / den : ℚ) ≤ 1 / 2 ↔ 2 * rest ≤ den := by
  rw [div_le_iff₀ (Nat.cast_pos.mpr hden), ← Nat.cast_le (α := ℚ)]
  push_cast
  constructor <;> intro h <;> linarith

end Rest

theorem Direction.rounds_quotient (d : Direction) (num : ℕ) {den : ℕ} (hden : 0 < den) :
    d.Rounds (num / den) (d.quotient num den) := by
  have hd : (0 : ℚ) < den := by exact_mod_cast hden
  have h0 : (0 : ℚ) ≤ (num % den : ℕ) / (den : ℚ) := by positivity
  have h1 : ((num % den : ℕ) : ℚ) / den < 1 :=
    (div_lt_one hd).mpr (by exact_mod_cast Nat.mod_lt num hden)
  have hup := half_le_rest_iff (num % den) hden
  have hdown := rest_le_half_iff (num % den) hden
  rw [div_eq_whole_add_rest num hden]
  cases d with
  | down => exact ⟨by simpa [quotient] using h0, by simpa [quotient] using h1⟩
  | up =>
    by_cases hz : num % den = 0
    · simp [Rounds, quotient, hz]
    · have hpos : (0 : ℚ) < (num % den : ℕ) / (den : ℚ) :=
        div_pos (by exact_mod_cast Nat.pos_of_ne_zero hz) hd
      simp only [Rounds, quotient, hz, if_false, Nat.cast_add, Nat.cast_one]
      constructor <;> linarith
  | halfUp =>
    by_cases hz : 2 * (num % den) < den
    · have hlt := lt_of_not_ge (mt hup.mp hz.not_ge)
      simp only [Rounds, quotient, hz, if_true]
      constructor <;> linarith
    · have hge := hup.mpr (not_lt.mp hz)
      simp only [Rounds, quotient, hz, if_false, Nat.cast_add, Nat.cast_one]
      constructor <;> linarith
  | halfEven =>
    rcases lt_trichotomy (2 * (num % den)) den with hz | hz | hz
    · have hlt := lt_of_not_ge (mt hup.mp hz.not_ge)
      simp only [Rounds, quotient, hz, if_true]
      exact ⟨by linarith, by linarith, fun h => by rcases h with h | h <;> linarith⟩
    · have htie := le_antisymm (hdown.mpr hz.le) (hup.mpr hz.ge)
      by_cases heven : num / den % 2 = 0
      · simp only [Rounds, quotient, hz, lt_irrefl, heven, if_true, if_false]
        exact ⟨by linarith, by linarith, fun _ => Nat.even_iff.mpr heven⟩
      · simp only [Rounds, quotient, hz, lt_irrefl, heven, if_false, Nat.cast_add, Nat.cast_one]
        exact ⟨by linarith, by linarith, fun _ => Nat.even_iff.mpr (by omega)⟩
    · have hgt := lt_of_not_ge (mt hdown.mp hz.not_ge)
      simp only [Rounds, quotient, hz, hz.not_gt, if_true, if_false, Nat.cast_add, Nat.cast_one]
      exact ⟨by linarith, by linarith, fun h => by rcases h with h | h <;> linarith⟩

namespace Direction.Rounds

variable {d : Direction} {q q' : ℚ} {n n' : ℕ}

theorem mono (h : d.Rounds q n) (h' : d.Rounds q' n') (hq : q ≤ q') : n ≤ n' := by
  by_contra hlt
  have hle : ((n' : ℚ) + 1) ≤ n := by exact_mod_cast Nat.lt_of_not_le hlt
  cases d with
  | down => linarith [h.1, h'.2]
  | up => linarith [h.1, h'.2]
  | halfUp => linarith [h.1, h'.2]
  | halfEven =>
    -- both rationals are the tie between two neighbours, which cannot both be even
    have hn := h.2.2 (.inl (by linarith [h.1, h'.2.1]))
    have hn' := h'.2.2 (.inr (by linarith [h.1, h'.2.1]))
    have he : n = n' + 1 := by
      have : (n : ℚ) = n' + 1 := by linarith [h.1, h'.2.1]
      exact_mod_cast this
    rw [he] at hn
    exact (Nat.even_add_one.mp hn) hn'

theorem unique (h : d.Rounds q n) (h' : d.Rounds q n') : n = n' :=
  Nat.le_antisymm (h.mono h' le_rfl) (h'.mono h le_rfl)

theorem natCast (d : Direction) (n : ℕ) : d.Rounds n n := by
  cases d with
  | down => exact ⟨le_rfl, by linarith⟩
  | up => exact ⟨by linarith, le_rfl⟩
  | halfUp => exact ⟨by linarith, by linarith⟩
  | halfEven =>
    exact ⟨by linarith, by linarith, fun h => by rcases h with h | h <;> linarith⟩

theorem eq_natCast {m : ℕ} (h : d.Rounds m n) : n = m := h.unique (natCast d m)

theorem le_natCast {m : ℕ} (h : d.Rounds q n) (hq : q ≤ m) : n ≤ m := h.mono (natCast d m) hq

theorem natCast_le {m : ℕ} (h : d.Rounds q n) (hq : m ≤ q) : m ≤ n := (natCast d m).mono h hq

end Direction.Rounds

/-- Directions of which the first never leads above the second. -/
def Direction.AtMost (d d' : Direction) : Prop := d = d' ∨ d = .down ∨ d' = .up

theorem Direction.AtMost.rounds_le {d d' : Direction} {q q' : ℚ} {n n' : ℕ} (hd : d.AtMost d')
    (h : d.Rounds q n) (h' : d'.Rounds q' n') (hq : q ≤ q') : n ≤ n' := by
  rcases hd with rfl | rfl | rfl
  · exact h.mono h' hq
  · exact h'.natCast_le (h.1.trans hq)
  · exact h.le_natCast (hq.trans h'.2)

theorem Direction.quotient_one (d : Direction) (n : ℕ) : d.quotient n 1 = n := by
  have h := d.rounds_quotient n Nat.one_pos
  rw [Nat.cast_one, div_one] at h
  exact h.eq_natCast

end ExamAdmission
