import ExamAdmission.Text.LowerCase

/-! Lower case, and what it does not depend on. Lower case of lower case changes nothing, and texts
that differ only in the case of ASCII letters have the same. -/

namespace ExamAdmission

/-- The capitals of a run, and the dotted I as a run of its own. -/
def InRun (code : Nat) : Nat × Nat × Nat × Int → Prop
  | (first, last, step, _) => first ≤ code ∧ code ≤ last ∧ (code - first) % step = 0

instance (code : Nat) : DecidablePred (InRun code) := fun (_, _, _, _) =>
  inferInstanceAs (Decidable (_ ∧ _ ∧ _))

def dottedI : Nat × Nat × Nat × Int := (0x130, 0x130, 1, 0)

/-- A character that is no capital. -/
def IsSmall (c : Char) : Prop := ∀ run ∈ dottedI :: capitalRuns, ¬ InRun c.toNat run

instance : DecidablePred IsSmall := fun c =>
  inferInstanceAs (Decidable (∀ run ∈ dottedI :: capitalRuns, ¬ InRun c.toNat run))

/-- Whether a run has none of the codes from `low` to `high`. If only every other one of them is asked
for, it may have those between. -/
def apart (low high : Nat) (everyOther : Bool) (run : Nat × Nat × Nat × Int) : Bool :=
  Nat.blt high run.1 || (Nat.blt run.2.1 low ||
    (everyOther && (Nat.beq run.2.2.1 2 && Nat.beq ((low + run.1) % 2) 1)))

theorem not_inRun_of_apart {low high code : Nat} {everyOther : Bool}
    {run : Nat × Nat × Nat × Int} (h : apart low high everyOther run = true) (hlow : low ≤ code)
    (hhigh : code ≤ high) (hother : everyOther = true → (code - low) % 2 = 0) :
    ¬ InRun code run := by
  obtain ⟨first, last, step, _⟩ := run
  simp only [apart, Bool.or_eq_true, Bool.and_eq_true, Nat.blt_eq, Nat.beq_eq] at h
  rintro ⟨hfirst, hlast, hstep⟩
  rcases h with h | h | ⟨hplaces, rfl, hodd⟩
  · omega
  · omega
  · have hplace := hother hplaces
    omega

/-- Some ranges that no run meets: after the capitals of ASCII, before those of Greek and after them. -/
def betweenRuns : CodeRanges := [(0x5b, 0xbf), (0x250, 0x36f), (0x3ac, 0x3ce)]

theorem apart_betweenRuns : (betweenRuns.all fun range =>
    (dottedI :: capitalRuns).all (apart range.1 range.2 false)) = true := by
  decide +kernel

theorem isSmall_of_between {range : Nat × Nat} {c : Char} (h : range ∈ betweenRuns)
    (hlow : range.1 ≤ c.toNat) (hhigh : c.toNat ≤ range.2) : IsSmall c := by
  intro run hrun
  have hapart := List.all_eq_true.mp apart_betweenRuns range h
  exact not_inRun_of_apart (List.all_eq_true.mp hapart run hrun) hlow hhigh nofun

/-- The small forms of a run are in no run. -/
theorem apart_smallForms : (capitalRuns.all fun run => (dottedI :: capitalRuns).all
    (apart (run.1 + run.2.2.2).toNat (run.2.1 + run.2.2.2).toNat
      (Nat.beq run.2.2.1 2 || Nat.beq run.1 run.2.1))) = true := by
  decide +kernel

/-- Codes of the small forms are codes of characters, and runs go up by one or by two. -/
theorem valid_capitalRuns : ∀ run ∈ capitalRuns, 0 ≤ run.1 + run.2.2.2 ∧
    (run.2.1 + run.2.2.2 < 0xd800 ∨ 0xdfff < run.1 + run.2.2.2 ∧ run.2.1 + run.2.2.2 < 0x110000) ∧
    (run.2.2.1 = 1 ∨ run.2.2.1 = 2) := by
  decide +kernel

theorem isSmall_moved {code first last step : Nat} {offset : Int}
    (hmem : (first, last, step, offset) ∈ capitalRuns)
    (hin : InRun code (first, last, step, offset)) :
    IsSmall (Char.ofNat (code + offset).toNat) := by
  obtain ⟨hfirst, hlast, hplace⟩ := hin
  obtain ⟨hcode, hvalid, hstep⟩ := valid_capitalRuns _ hmem
  dsimp only at hcode hvalid hstep
  have hsmall : (Char.ofNat (code + offset).toNat).toNat = (code + offset).toNat := by
    rw [Char.ofNat, dif_pos (by unfold Nat.isValidChar; omega)]
    rfl
  intro other hother
  rw [hsmall]
  have hapart := List.all_eq_true.mp (List.all_eq_true.mp apart_smallForms _ hmem) other hother
  refine not_inRun_of_apart hapart ?_ ?_ fun hevery => ?_
  · dsimp only
    omega
  · dsimp only
    omega
  · simp only [Bool.or_eq_true, Nat.beq_eq] at hevery
    dsimp only
    rcases hevery with rfl | rfl
    · omega
    · omega

theorem isSmall_smallForm {c : Char} (hi : c.toNat ≠ 0x130) : IsSmall (smallForm c) := by
  cases hrun : capitalRuns.find? fun (first, last, step, _) =>
      first ≤ c.toNat && c.toNat ≤ last && (c.toNat - first) % step = 0 with
  | none =>
    have hnone := List.find?_eq_none.mp hrun
    rw [smallForm, hrun]
    refine List.forall_mem_cons.mpr ⟨fun h => hi (Nat.le_antisymm h.2.1 h.1), fun run hmem => ?_⟩
    simpa [InRun, and_assoc] using hnone run hmem
  | some run =>
    have hin := List.find?_some hrun
    simp only [Bool.and_eq_true, decide_eq_true_eq, and_assoc] at hin
    rw [smallForm, hrun]
    exact isSmall_moved (List.mem_of_find?_eq_some hrun) hin

theorem isSmall_lowerAfter (before s : List Char) : ∀ c ∈ lowerAfter before s, IsSmall c := by
  induction s generalizing before with
  | nil => nofun
  | cons c rest ih =>
    rw [lowerAfter]
    refine List.forall_mem_append.mpr ⟨?_, ih _⟩
    split
    · have hlatin : (0x5b, 0xbf) ∈ betweenRuns := by decide
      have hmarks : (0x250, 0x36f) ∈ betweenRuns := by decide
      exact List.forall_mem_cons.mpr ⟨isSmall_of_between hlatin (by decide) (by decide),
        List.forall_mem_singleton.mpr (isSmall_of_between hmarks (by decide) (by decide))⟩
    · rename_i hi
      have hgreek : (0x3ac, 0x3ce) ∈ betweenRuns := by decide
      split
      · refine List.forall_mem_singleton.mpr ?_
        split <;> exact isSmall_of_between hgreek (by decide) (by decide)
      · exact List.forall_mem_singleton.mpr (isSmall_smallForm hi)

theorem smallForm_of_isSmall {c : Char} (h : IsSmall c) : smallForm c = c := by
  have hnone : capitalRuns.find? (fun (first, last, step, _) =>
      first ≤ c.toNat && c.toNat ≤ last && (c.toNat - first) % step = 0) = none := by
    refine List.find?_eq_none.mpr fun run hmem => ?_
    simpa [InRun, and_assoc] using h run (List.mem_cons_of_mem _ hmem)
  rw [smallForm, hnone]

theorem lowerAfter_of_isSmall {before s : List Char} (h : ∀ c ∈ s, IsSmall c) :
    lowerAfter before s = s := by
  induction s generalizing before with
  | nil => rfl
  | cons c rest ih =>
    obtain ⟨hc, hrest⟩ := List.forall_mem_cons.mp h
    have hi : c.toNat ≠ 0x130 := fun hcode => by
      refine hc dottedI List.mem_cons_self ?_
      rw [hcode]
      decide
    -- the sigma is in a run
    have hs : c.toNat ≠ 0x3a3 := fun hcode => by
      refine hc (0x3a3, 0x3ab, 1, 32) (List.mem_cons_of_mem _ (by decide)) ?_
      rw [hcode]
      decide
    rw [lowerAfter, if_neg hi, if_neg hs, smallForm_of_isSmall hc, ih hrest, List.singleton_append]

theorem lowerCase_of_between {s : String}
    (h : (s.toList.all fun c => Nat.ble 0x5b c.toNat && Nat.ble c.toNat 0xbf) = true) :
    lowerCase s = s := by
  have hsmall : ∀ c ∈ s.toList, IsSmall c := by
    intro c hc
    have hcode := List.all_eq_true.mp h c hc
    rw [Bool.and_eq_true, Nat.ble_eq, Nat.ble_eq] at hcode
    have hlatin : (0x5b, 0xbf) ∈ betweenRuns := List.mem_cons_self
    exact isSmall_of_between hlatin hcode.1 hcode.2
  rw [lowerCase, lowerAfter_of_isSmall hsmall, String.ofList_toList]

theorem lowerCase_lowerCase (s : String) : lowerCase (lowerCase s) = lowerCase s := by
  rw [lowerCase, lowerCase, String.toList_ofList, lowerAfter_of_isSmall (isSmall_lowerAfter _ _)]

/-- Texts that differ at most in the case of ASCII letters. -/
def SameLetters (s t : String) : Prop := s.toList.map Char.toLower = t.toList.map Char.toLower

theorem toLower_cases (c : Char) : c.toLower = c ∨
    (0x41 ≤ c.toNat ∧ c.toNat ≤ 0x5a) ∧ c.toLower.toNat = c.toNat + 32 := by
  by_cases hcapital : c.val ≥ 'A'.val ∧ c.val ≤ 'Z'.val
  · have hcode : 0x41 ≤ c.toNat ∧ c.toNat ≤ 0x5a := hcapital
    have hsum : c.toLower.toNat = (c.toNat + 32) % 2 ^ 32 := by
      have hform : c.toLower = ⟨c.val + 32, _⟩ := dif_pos hcapital
      rw [hform]
      exact UInt32.toNat_add ..
    refine .inr ⟨hcode, ?_⟩
    omega
  · exact .inl (dif_neg hcapital)

theorem toNat_toLower_eq_iff (c : Char) {code : Nat} (h : 0x7a < code) :
    c.toLower.toNat = code ↔ c.toNat = code := by
  rcases toLower_cases c with hsame | ⟨hcapital, hcode⟩
  · rw [hsame]
  · omega

theorem smallForm_of_capital {c : Char} (hlow : 0x41 ≤ c.toNat) (hhigh : c.toNat ≤ 0x5a) :
    smallForm c = Char.ofNat (c.toNat + 32) := by
  rw [smallForm, capitalRuns, List.find?_cons_of_pos]
  · rfl
  · simp [hlow, hhigh, Nat.mod_one]

theorem smallForm_toLower (c : Char) : smallForm c.toLower = smallForm c := by
  rcases toLower_cases c with hsame | ⟨⟨hlow, hhigh⟩, hcode⟩
  · rw [hsame]
  · have hlatin : (0x5b, 0xbf) ∈ betweenRuns := List.mem_cons_self
    have hsmall : IsSmall c.toLower :=
      isSmall_of_between hlatin (by dsimp only; omega) (by dsimp only; omega)
    rw [smallForm_of_isSmall hsmall, smallForm_of_capital hlow hhigh, ← hcode, Char.ofNat_toNat]

theorem CodeRanges.has_of_mem {ranges : CodeRanges} {range : Nat × Nat} {c : Char}
    (h : range ∈ ranges) (hlow : range.1 ≤ c.toNat) (hhigh : c.toNat ≤ range.2) :
    ranges.has c = true :=
  List.any_eq_true.mpr ⟨range, h, by simp [hlow, hhigh]⟩

theorem has_toLower_cased (c : Char) : casedRanges.has c.toLower = casedRanges.has c := by
  rcases toLower_cases c with hsame | ⟨⟨hlow, hhigh⟩, hcode⟩
  · rw [hsame]
  · have hcapitals : (0x41, 0x5a) ∈ casedRanges := List.mem_cons_self
    have hletters : (0x61, 0x7a) ∈ casedRanges := List.mem_cons_of_mem _ List.mem_cons_self
    rw [CodeRanges.has_of_mem hcapitals hlow hhigh,
      CodeRanges.has_of_mem hletters (by dsimp only; omega) (by dsimp only; omega)]

/-- No letter of ASCII is ignored in the search for a cased one. -/
theorem has_toLower_caseIgnorable (c : Char) :
    caseIgnorableRanges.has c.toLower = caseIgnorableRanges.has c := by
  have hapart : (caseIgnorableRanges.all fun range =>
      (Nat.blt 0x5a range.1 || Nat.blt range.2 0x41) &&
        (Nat.blt 0x7a range.1 || Nat.blt range.2 0x61)) = true := by decide +kernel
  have hletter : ∀ c : Char, 0x41 ≤ c.toNat ∧ c.toNat ≤ 0x5a ∨ 0x61 ≤ c.toNat ∧ c.toNat ≤ 0x7a →
      caseIgnorableRanges.has c = false := by
    intro c hc
    refine List.any_eq_false.mpr fun range hrange => ?_
    have hout := List.all_eq_true.mp hapart range hrange
    simp only [Bool.and_eq_true, Bool.or_eq_true, Nat.blt_eq] at hout
    simp only [Bool.and_eq_true, decide_eq_true_eq]
    omega
  rcases toLower_cases c with hsame | ⟨hcapital, hcode⟩
  · rw [hsame]
  · rw [hletter c (.inl hcapital), hletter c.toLower (.inr (by omega))]

theorem meetsCased_map_toLower (s : List Char) :
    meetsCased (s.map Char.toLower) = meetsCased s := by
  have hignorable : caseIgnorableRanges.has ∘ Char.toLower = caseIgnorableRanges.has :=
    funext has_toLower_caseIgnorable
  rw [meetsCased, meetsCased, List.dropWhile_map, hignorable]
  cases s.dropWhile caseIgnorableRanges.has with
  | nil => rfl
  | cons c rest => exact has_toLower_cased c

theorem lowerAfter_map_toLower (before s : List Char) :
    lowerAfter (before.map Char.toLower) (s.map Char.toLower) = lowerAfter before s := by
  induction s generalizing before with
  | nil => rfl
  | cons c rest ih =>
    rw [List.map_cons, lowerAfter, lowerAfter, ← List.map_cons, ih, smallForm_toLower,
      meetsCased_map_toLower, meetsCased_map_toLower]
    simp only [toNat_toLower_eq_iff c (by decide : 0x7a < 0x130),
      toNat_toLower_eq_iff c (by decide : 0x7a < 0x3a3)]

theorem SameLetters.lowerCase_eq {s t : String} (h : SameLetters s t) :
    lowerCase s = lowerCase t := by
  have hlower := lowerAfter_map_toLower [] s.toList
  rw [h] at hlower
  exact congrArg String.ofList (hlower.symm.trans (lowerAfter_map_toLower [] t.toList))

end ExamAdmission
