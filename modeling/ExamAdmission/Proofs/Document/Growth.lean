import ExamAdmission.Proofs.Document.Sums
import ExamAdmission.Proofs.Document.Tables

/-! Tables of points that grow: entries are raised in their place, and new ones come in between. -/

namespace ExamAdmission

attribute [local irreducible] rangeEnd Binary64.unit

namespace Table

/-- Every entry of the first table is in the second one with as many points or more, and what is
only in the second one has zero points or more. -/
inductive Grows : Table Value → Table Value → Prop
  | nil : Grows [] []
  | raise {label other : Label} {v w : Value} {table table' : Table Value}
      (hk : label.key = other.key) (hv : v = w ∨ v.AtMost w) (h : Grows table table') :
      Grows ((label, v) :: table) ((other, w) :: table')
  | insert {label : Label} {w : Value} {table table' : Table Value}
      (hw : (Value.int 0).AtMost w) (h : Grows table table') : Grows table ((label, w) :: table')

/-- An entry with as many points or more under the same label. -/
def RaisedTo (e e' : Label × Value) : Prop := e.1 = e'.1 ∧ (e.2 = e'.2 ∨ e.2.AtMost e'.2)

theorem put_forall₂ {label : Label} {v w : Value} {table table' : Table Value}
    (hv : v = w ∨ v.AtMost w) (h : List.Forall₂ RaisedTo table table') :
    List.Forall₂ RaisedTo (put label v table) (put label w table') := by
  induction h with
  | nil => exact .cons ⟨rfl, hv⟩ .nil
  | @cons e e' table table' he h ih =>
    obtain ⟨other, u⟩ := e
    obtain ⟨_, u'⟩ := e'
    obtain ⟨rfl, hu⟩ := he
    simp only [put]
    split
    · exact .cons ⟨rfl, hv⟩ h
    · exact .cons ⟨rfl, hu⟩ ih

namespace Grows

variable {table table' table'' : Table Value}

theorem refl (table : Table Value) : Grows table table := by
  induction table with
  | nil => exact .nil
  | cons entry rest ih => exact .raise rfl (.inl rfl) ih

theorem trans (h : Grows table table') (h' : Grows table' table'') : Grows table table'' := by
  induction h' generalizing table with
  | nil => exact h
  | raise hk hv _ ih =>
    cases h with
    | raise hk₀ hv₀ h =>
      refine .raise (hk₀.trans hk) ?_ (ih h)
      rcases hv₀ with rfl | hv₀
      · exact hv
      · rcases hv with rfl | hv
        · exact .inr hv₀
        · exact .inr (hv₀.trans hv)
    | insert hw₀ h =>
      refine .insert ?_ (ih h)
      rcases hv with rfl | hv
      · exact hw₀
      · exact hw₀.trans hv
  | insert hw _ ih => exact .insert hw (ih h)

theorem keys_subset (h : Grows table table') : table.keys ⊆ table'.keys := by
  induction h with
  | nil => exact fun _ hk => hk
  | raise hk _ _ ih =>
    rw [keys_cons, keys_cons, hk]
    exact List.cons_subset_cons _ ih
  | insert _ _ ih => exact List.subset_cons_of_subset _ ih

theorem insert_between (front back : Table Value) (label : Label) {w : Value}
    (hw : (Value.int 0).AtMost w) : Grows (front ++ back) (front ++ (label, w) :: back) := by
  induction front with
  | nil => exact .insert hw (refl back)
  | cons entry rest ih => exact .raise rfl (.inl rfl) ih

theorem of_forall₂ (h : List.Forall₂ RaisedTo table table') : Grows table table' := by
  induction h with
  | nil => exact .nil
  | cons he _ ih => exact .raise (congrArg _ he.1) he.2 ih

theorem ofList_of_forall₂ {entries entries' : List (Label × Value)}
    (h : List.Forall₂ RaisedTo entries entries') : Grows (ofList entries) (ofList entries') := by
  have hfold : ∀ table table', List.Forall₂ RaisedTo table table' →
      List.Forall₂ RaisedTo (entries.foldl (fun table (label, a) => put label a table) table)
        (entries'.foldl (fun table (label, a) => put label a table) table') := by
    induction h with
    | nil => exact fun _ _ ht => ht
    | @cons e e' _ _ he _ ih =>
      obtain ⟨label, v⟩ := e
      obtain ⟨_, w⟩ := e'
      obtain ⟨rfl, hv⟩ := he
      exact fun table table' ht => ih _ _ (put_forall₂ hv ht)
  exact of_forall₂ (hfold [] [] .nil)

theorem ofList_insert {before after : List (Label × Value)} {label : Label} {w : Value}
    (hw : (Value.int 0).AtMost w) (hnew : ∀ e ∈ before ++ after, e.1.key ≠ label.key) :
    Grows (ofList (before ++ after)) (ofList (before ++ (label, w) :: after)) := by
  obtain ⟨front, back, hold, hinsert⟩ := Table.ofList_insert hnew
  rw [hold, hinsert]
  exact insert_between front back label hw

theorem find?_getD (h : Grows table table') (hn : table'.keys.Nodup)
    (hf : ∀ w ∈ table'.values, w.IsFinite) {zero : Value} (hz : zero.AtMost (.int 0))
    (hzero : zero.IsFinite) (key : Key) :
    ((table.find? key).getD zero).AtMost ((table'.find? key).getD zero) := by
  induction h with
  | nil => exact .refl hzero
  | @raise label other v w table table' hk hv h ih =>
    simp only [keys_cons, values_cons, List.nodup_cons, List.forall_mem_cons] at hn hf
    by_cases hkey : other.key = key
    · simp only [find?, hk, hkey, if_true, Option.getD_some]
      rcases hv with rfl | hv
      · exact .refl hf.1
      · exact hv
    · simpa only [find?, hk, hkey, if_false] using ih hn.2 hf.2
  | @insert label w table table' hw h ih =>
    simp only [keys_cons, values_cons, List.nodup_cons, List.forall_mem_cons] at hn hf
    by_cases hkey : label.key = key
    · -- the key of a new entry is in no other place
      have hnone : table.find? key = none :=
        find?_eq_none fun hm => hn.1 (hkey ▸ h.keys_subset hm)
      simp only [find?, hkey, if_true, hnone, Option.getD_some, Option.getD_none]
      exact hz.trans hw
    · simpa only [find?, hkey, if_false] using ih hn.2 hf.2

/-- Growth never lowers a sum, wherever it puts the new summands. -/
theorem foldlM_le (h : Grows table table') {a a' s s' : Number}
    (ht : ∀ v ∈ table.values, v.IsFinite) (ht' : ∀ v ∈ table'.values, v.IsFinite)
    (hw : a.whole + (table.values.map Value.whole).sum ≤ 2 ^ 53)
    (hw' : a'.whole + (table'.values.map Value.whole).sum ≤ 2 ^ 53) (ha : a ≤ a')
    (hs : table.values.foldlM (fun total v => do total.add (← v.number)) a = .ok s)
    (hs' : table'.values.foldlM (fun total v => do total.add (← v.number)) a' = .ok s') :
    s ≤ s' := by
  induction h generalizing a a' with
  | nil =>
    cases hs
    cases hs'
    exact ha
  | @raise label other v w table table' hk hv h ih =>
    simp only [values_cons, List.map_cons, List.forall_mem_cons, List.sum_cons]
      at ht ht' hw hw' hs hs'
    obtain ⟨b, c, hb, hadd, hrest⟩ := Value.foldlM_cons_eq_ok.mp hs
    obtain ⟨b', c', hb', hadd', hrest'⟩ := Value.foldlM_cons_eq_ok.mp hs'
    have hfb := ht.1.of_number? hb
    have hfb' := ht'.1.of_number? hb'
    rw [Value.whole_of_number? hb] at hw
    rw [Value.whole_of_number? hb'] at hw'
    have hvalue : v.AtMost w := hv.elim (fun hsame => hsame ▸ .refl ht.1) id
    have hle := hvalue.number_le hb hb'
    have hadded := Number.whole_add hadd
    have hadded' := Number.whole_add hadd'
    exact ih ht.2 ht'.2 (by omega) (by omega)
      (Number.add_le_add ha hle hfb hfb' (by omega) (by omega) hadd hadd') hrest hrest'
  | @insert label w table table' hle h ih =>
    simp only [values_cons, List.map_cons, List.forall_mem_cons, List.sum_cons] at ht' hw' hs'
    obtain ⟨b', c', hb', hadd', hrest'⟩ := Value.foldlM_cons_eq_ok.mp hs'
    have hfb' := ht'.1.of_number? hb'
    rw [Value.whole_of_number? hb'] at hw'
    have hzero := hle.number_le rfl hb'
    have hadded' := Number.whole_add hadd'
    exact ih ht ht'.2 hw (by omega) (Number.le_trans ha
      (Number.le_add_of_nonneg hzero hfb' (Number.le_refl_of_le ha) (by omega) hadd')) hs hrest'

theorem sum_le (h : Grows table table') (ht : Value.Exact table.values)
    (ht' : Value.Exact table'.values) {s s' : Number} (hs : Value.sum table.values = .ok s)
    (hs' : Value.sum table'.values = .ok s') : s ≤ s' :=
  h.foldlM_le ht.1 ht'.1 (by simpa [Number.whole] using ht.2) (by simpa [Number.whole] using ht'.2)
    (Number.int_le_int.mpr le_rfl) hs hs'

end Grows

end Table

end ExamAdmission
