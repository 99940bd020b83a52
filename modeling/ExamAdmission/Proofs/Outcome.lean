import ExamAdmission.Run
import Mathlib.Data.List.Forall2

/-! Outcomes of one step after the other. A later step is reached only by a result of the earlier
one, and its events follow. -/

namespace ExamAdmission

variable {ε α β γ : Type}

theorem bind_eq_ok {x : Except ε α} {f : α → Except ε β} {b : β} :
    (x >>= f) = .ok b ↔ ∃ a, x = .ok a ∧ f a = .ok b := by
  cases x <;> simp [bind, Except.bind]

theorem bind_eq_error {x : Except ε α} {f : α → Except ε β} {e : ε} :
    (x >>= f) = .error e ↔ x = .error e ∨ ∃ a, x = .ok a ∧ f a = .error e := by
  cases x <;> simp [bind, Except.bind]

theorem exists_of_isOk {x : Except ε α} (h : x.isOk = true) : ∃ a, x = .ok a := by
  cases x with
  | ok a => exact ⟨a, rfl⟩
  | error e => cases h

theorem exists_of_any {x : Except ε α} {p : α → Bool} (h : x.toOption.any p = true) :
    ∃ a, x = .ok a ∧ p a = true := by
  cases x with
  | ok a => exact ⟨a, rfl, h⟩
  | error e => cases h

theorem eq_ok_of_any [DecidableEq α] {x : Except ε α} {a : α}
    (h : x.toOption.any (· = a) = true) : x = .ok a := by
  obtain ⟨b, hb, hab⟩ := exists_of_any h
  rw [hb, of_decide_eq_true hab]

/-- Whether there is no result but a fault of some kind. -/
def failsWith (p : ε → Bool) : Except ε α → Bool
  | .ok _ => false
  | .error e => p e

theorem exists_of_failsWith {x : Except ε α} {p : ε → Bool} (h : failsWith p x = true) :
    ∃ e, x = .error e ∧ p e = true := by
  cases x with
  | ok a => cases h
  | error e => exact ⟨e, rfl, h⟩

theorem liftArithmetic_eq_ok {x : Except ArithmeticFault α} {a : α} :
    liftArithmetic x = .ok a ↔ x = .ok a := by
  cases x <;> simp [liftArithmetic]

theorem liftArithmetic_eq_error {x : Except ArithmeticFault α} {e : Fault} :
    liftArithmetic x = .error e ↔ ∃ cause, x = .error cause ∧ .arithmetic cause = e := by
  cases x <;> simp [liftArithmetic]

theorem exists_of_forall₂ {R : α → β → Prop} {as : List α} {bs : List β} {b : β}
    (h : List.Forall₂ R as bs) (hb : b ∈ bs) : ∃ a ∈ as, R a b := by
  induction h with
  | nil => cases hb
  | cons hab _ ih =>
    rcases List.mem_cons.mp hb with rfl | hb
    · exact ⟨_, List.mem_cons_self, hab⟩
    · obtain ⟨a, ha, hr⟩ := ih hb
      exact ⟨a, List.mem_cons_of_mem _ ha, hr⟩

theorem forall₂_zip {R : γ → α → Prop} {S : γ → β → Prop} {T : γ → α × β → Prop}
    {cs : List γ} {as : List α} {bs : List β} (h : List.Forall₂ R cs as)
    (h' : List.Forall₂ S cs bs) (hT : ∀ c ∈ cs, ∀ a b, R c a → S c b → T c (a, b)) :
    List.Forall₂ T cs (as.zip bs) := by
  induction h generalizing bs with
  | nil => exact .nil
  | cons hr _ ih =>
    cases h' with
    | cons hs hrest =>
      obtain ⟨hfirst, hothers⟩ := List.forall_mem_cons.mp hT
      exact .cons (hfirst _ _ hr hs) (ih hrest hothers)

theorem forall₂_of_forall₂ {R : γ → α → Prop} {S : γ → β → Prop} {T : α → β → Prop}
    {cs : List γ} {as : List α} {bs : List β} (h : List.Forall₂ R cs as)
    (h' : List.Forall₂ S cs bs) (hT : ∀ c ∈ cs, ∀ a b, R c a → S c b → T a b) :
    List.Forall₂ T as bs := by
  refine List.forall₂_iff_zip.mpr ⟨h.length_eq.symm.trans h'.length_eq, fun {a b} hmem => ?_⟩
  have hzip := forall₂_zip (T := fun _ pair => T pair.1 pair.2) h h' hT
  obtain ⟨_, -, hab⟩ := exists_of_forall₂ hzip hmem
  exact hab

theorem forall₂_append_left_iff {R : α → β → Prop} {as as' : List α} {bs : List β} :
    List.Forall₂ R (as ++ as') bs ↔
      ∃ cs cs', List.Forall₂ R as cs ∧ List.Forall₂ R as' cs' ∧ bs = cs ++ cs' := by
  induction as generalizing bs with
  | nil => simp
  | cons a rest ih =>
    simp only [List.cons_append, List.forall₂_cons_left_iff, ih]
    constructor
    · rintro ⟨b, _, hb, ⟨cs, cs', hcs, hcs', rfl⟩, rfl⟩
      exact ⟨b :: cs, cs', ⟨b, cs, hb, hcs, rfl⟩, hcs', rfl⟩
    · rintro ⟨_, cs', ⟨b, cs, hb, hcs, rfl⟩, hcs', rfl⟩
      exact ⟨b, cs ++ cs', hb, ⟨cs, cs', hcs, hcs', rfl⟩, rfl⟩

theorem mapM_eq_ok {f : α → Except ε β} {as : List α} {bs : List β} :
    as.mapM f = .ok bs ↔ List.Forall₂ (fun a b => f a = .ok b) as bs := by
  induction as generalizing bs with
  | nil =>
    rw [List.mapM_nil, List.forall₂_nil_left_iff]
    exact ⟨fun h => (Except.ok.inj h).symm, fun h => congrArg _ h.symm⟩
  | cons a rest ih =>
    simp only [List.mapM_cons, bind_eq_ok, ih, List.forall₂_cons_left_iff]
    constructor
    · rintro ⟨b, hb, others, ho, ⟨⟩⟩
      exact ⟨b, others, hb, ho, rfl⟩
    · rintro ⟨b, others, hb, ho, rfl⟩
      exact ⟨b, hb, others, ho, rfl⟩

theorem exists_mapM {f : α → Except ε β} {as : List α} (h : ∀ a ∈ as, ∃ b, f a = .ok b) :
    ∃ bs, as.mapM f = .ok bs := by
  simp only [mapM_eq_ok]
  induction as with
  | nil => exact ⟨[], .nil⟩
  | cons a rest ih =>
    obtain ⟨⟨b, hb⟩, hrest⟩ := List.forall_mem_cons.mp h
    obtain ⟨bs, hbs⟩ := ih hrest
    exact ⟨b :: bs, .cons hb hbs⟩

namespace Run

variable {x : Run α} {f : α → Run β} {a : α} {b : β}

theorem bind_result_eq_ok :
    (x >>= f).result = .ok b ↔ ∃ a, x.result = .ok a ∧ (f a).result = .ok b := by
  cases h : x.result <;> simp [bind, andThen, h]

theorem bind_result_eq_error {e : Fault} : (x >>= f).result = .error e ↔
    x.result = .error e ∨ ∃ a, x.result = .ok a ∧ (f a).result = .error e := by
  cases h : x.result <;> simp [bind, andThen, h]

theorem mapFault_result_eq_error {f : Fault → Fault} {e : Fault} :
    (x.mapFault f).result = .error e ↔ ∃ e', x.result = .error e' ∧ f e' = e := by
  cases h : x.result <;> simp [mapFault, h]

theorem mapFault_result_eq_ok {f : Fault → Fault} :
    (x.mapFault f).result = .ok a ↔ x.result = .ok a := by
  cases h : x.result <;> simp [mapFault, h]

theorem bind_events (h : x.result = .ok a) : (x >>= f).events = x.events ++ (f a).events := by
  simp [bind, andThen, h]

@[simp] theorem pure_result (a : α) : (pure a : Run α).result = .ok a := rfl

@[simp] theorem pure_events (a : α) : (pure a : Run α).events = [] := rfl

@[simp] theorem ok_result (a : α) : (ok a).result = .ok a := rfl

@[simp] theorem of_result (r : Except Fault α) : (of r).result = r := rfl

@[simp] theorem of_events (r : Except Fault α) : (of r).events = [] := rfl

@[simp] theorem tell_result (event : Event) : (tell event).result = .ok () := rfl

@[simp] theorem tell_events (event : Event) : (tell event).events = [event] := rfl

theorem bind_of_result (f : α → Except Fault β) :
    (x >>= fun a => of (f a)).result = x.result >>= f := by
  cases h : x.result <;> simp [bind, andThen, h, Except.bind]

theorem bind_of_warnings (f : α → Except Fault β) :
    (x >>= fun a => of (f a)).warnings = x.warnings := by
  cases h : x.result <;> simp [bind, andThen, h, warnings]

/-- The same result and the same warnings. The events may name different rules. -/
def Agrees (x y : Run α) : Prop := x.result = y.result ∧ x.warnings = y.warnings

theorem Agrees.refl (x : Run α) : x.Agrees x := ⟨rfl, rfl⟩

theorem Agrees.bind {y : Run α} {g : α → Run β} (h : x.Agrees y) (hf : ∀ a, (f a).Agrees (g a)) :
    (x >>= f).Agrees (y >>= g) := by
  obtain ⟨hresult, hwarnings⟩ := h
  unfold warnings at hwarnings
  cases hx : x.result with
  | error e =>
    have hy := hresult.symm.trans hx
    simpa [Agrees, Bind.bind, andThen, hx, hy, warnings] using hwarnings
  | ok a =>
    have hy := hresult.symm.trans hx
    have hrest := (hf a).2
    unfold warnings at hrest
    simpa [Agrees, Bind.bind, andThen, hx, hy, warnings, hwarnings, hrest] using (hf a).1

end Run

end ExamAdmission
