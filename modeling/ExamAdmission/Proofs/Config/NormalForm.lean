import ExamAdmission.Proofs.Config.Reports
import ExamAdmission.Proofs.Text.LowerCase
import Mathlib.Logic.Relation

/-! Configurations are the normal form of what they were read from. Their own fields are read as the
same configuration, and so is an object with its keys in another order or its types in other case. -/

namespace ExamAdmission

attribute [local irreducible] rangeEnd Binary64.unit

namespace Checked

variable {α β : Type} {x x' : Checked α} {y y' : Checked β} {fields fields' : List (String × Value)}
  {name : String} {read : Value → Checked α}

/-- Whatever the one gives, the other gives too. -/
def Keeps (x x' : Checked α) : Prop := ∀ a, x = .ok a → x' = .ok a

theorem Keeps.and (hx : x.Keeps x') (hy : y.Keeps y') : (x.and y).Keeps (x'.and y') := by
  rintro ⟨a, b⟩ h
  obtain ⟨ha, hb⟩ := and_eq_ok.mp h
  exact and_eq_ok.mpr ⟨hx a ha, hy b hb⟩

theorem Keeps.map (f : α → β) (hx : x.Keeps x') : Keeps (Except.map f x) (Except.map f x') := by
  intro b h
  obtain ⟨a, ha, rfl⟩ := map_eq_ok.mp h
  exact map_eq_ok.mpr ⟨a, hx a ha, rfl⟩

theorem Keeps.single {read : Value → Except IssueKind α} {v v' : Value}
    (h : ∀ a, read v = .ok a → read v' = .ok a) : (single read v).Keeps (single read v') :=
  fun a ha => single_eq_ok.mpr (h a (single_eq_ok.mp ha))

variable {S : Value → Value → Prop}

theorem Keeps.required (h : Option.Rel S (field? name fields) (field? name fields'))
    (hread : ∀ v v', S v v' → (read v).Keeps (read v')) :
    (required fields name read).Keeps (required fields' name read) := by
  intro a ha
  obtain ⟨v, hv, ha⟩ := required_eq_ok.mp ha
  rw [hv] at h
  generalize hv' : field? name fields' = found at h
  cases h with
  | some hS => exact required_eq_ok.mpr ⟨_, hv', hread _ _ hS a ha⟩

theorem Keeps.optional (absent : α) (h : Option.Rel S (field? name fields) (field? name fields'))
    (hread : ∀ v v', S v v' → (read v).Keeps (read v')) :
    (optional fields name absent read).Keeps (optional fields' name absent read) := by
  intro a ha
  unfold Checked.optional at ha ⊢
  generalize field? name fields = found at ha h
  generalize field? name fields' = found' at h
  cases h with
  | some hS => exact within_eq_ok.mpr (hread _ _ hS a (within_eq_ok.mp ha))
  | none => exact ha

theorem optional_eq_ok {v : Value} {a absent : α} (hv : field? name fields = some v)
    (ha : read v = .ok a) : optional fields name absent read = .ok a := by
  unfold Checked.optional
  rw [hv]
  exact within_eq_ok.mpr ha

theorem closed_eq_ok {known : List String} :
    closed fields known = .ok () ↔ ∀ entry ∈ fields, entry.1 ∈ known := by
  rw [← unexpectedFields_eq_nil, ← (Complains.closed fields known).exists_ok_iff]
  exact ⟨fun h => ⟨(), h⟩, fun ⟨(), h⟩ => h⟩

theorem Keeps.closed {S : String → Value → Value → Prop} (known : List String)
    (h : ∀ name, Option.Rel (S name) (field? name fields) (field? name fields')) :
    (closed fields known).Keeps (closed fields' known) := by
  rintro ⟨⟩ hclosed
  rw [closed_eq_ok] at hclosed ⊢
  intro entry hentry
  obtain ⟨v, hv⟩ := Option.isSome_iff_exists.mp (mem_keys_iff.mp (List.mem_map_of_mem hentry))
  have hrel := h entry.1
  rw [hv] at hrel
  generalize hw : field? entry.1 fields = found at hrel
  cases hrel with
  | some _ =>
    have hknown := hclosed _ (mem_of_field? hw)
    exact hknown

end Checked

open Checked (Keeps)

/-- The same object written in another way: with its keys in another order, or with one of its
fields respelled. -/
inductive Respelled (R : String → Value → Value → Prop) :
    List (String × Value) → List (String × Value) → Prop
  | order {fields fields' : List (String × Value)} (honce : (fields.map Prod.fst).Nodup)
      (h : fields.Perm fields') : Respelled R fields fields'
  | field (before after : List (String × Value)) {name : String} {v v' : Value}
      (h : R name v v') : Respelled R (before ++ (name, v) :: after) (before ++ (name, v') :: after)

theorem Respelled.field? {R : String → Value → Value → Prop} {fields fields' : List (String × Value)}
    (h : Respelled R fields fields') (name : String) :
    Option.Rel (fun v v' => v' = v ∨ R name v v') (field? name fields) (field? name fields') := by
  have hrefl : ∀ found : Option Value, Option.Rel (fun v v' => v' = v ∨ R name v v') found found
    | none => .none
    | some v => .some (.inl rfl)
  cases h with
  | order honce hperm =>
    rw [field?_perm honce hperm]
    exact hrefl _
  | field before after hR =>
    rename_i other v v'
    simp only [ExamAdmission.field?, List.lookup_append]
    cases before.lookup name with
    | some w => exact hrefl _
    | none =>
      have hcons := field?_cons name other
      simp only [ExamAdmission.field?] at hcons
      rw [Option.none_or, Option.none_or, hcons, hcons]
      by_cases hname : other = name
      · subst hname
        rw [if_pos rfl, if_pos rfl]
        exact .some (.inr hR)
      · rw [if_neg hname, if_neg hname]
        exact hrefl _

/-- A type with letters in the other case. -/
inductive TypeRecased (name : String) : Value → Value → Prop
  | intro {s t : String} (hname : name = "type") (h : SameLetters s t) :
      TypeRecased name (.text s) (.text t)

/-- A rule type with letters in the other case, or a rounding policy written in another way. -/
inductive FieldRespelled (name : String) : Value → Value → Prop
  | type {s t : String} (hname : name = "type") (h : SameLetters s t) :
      FieldRespelled name (.text s) (.text t)
  | policy {fields fields' : List (String × Value)} (h : Respelled TypeRecased fields fields') :
      FieldRespelled name (.object fields) (.object fields')

namespace RoundingPolicy

theorem keeps_ofFields {fields fields' : List (String × Value)}
    (h : Respelled TypeRecased fields fields') : (ofFields fields).Keeps (ofFields fields') := by
  refine .map _ (.and (.required (h.field? _) ?_) (.and (.optional 0 (h.field? _) ?_)
    (.closed fieldNames h.field?)))
  · rintro v v' (rfl | ⟨-, hletters⟩)
    · exact fun _ => id
    · refine .single fun t ht => ?_
      simpa only [Field.roundingType, hletters.lowerCase_eq] using ht
  · rintro v v' (rfl | ⟨hname, -⟩)
    · exact fun _ => id
    · exact absurd hname (by decide)

theorem ofValue_toValue (policy : RoundingPolicy) : ofValue policy.toValue = .ok policy := by
  have htype : Field.roundingType (.text policy.type.name) = .ok policy.type := by
    simp only [Field.roundingType, Field.lowerCase_name, Field.ofName?_eq_some.mpr rfl]
  have hdecimals : Field.natural (.int policy.decimals) = .ok policy.decimals :=
    bind_eq_ok.mpr ⟨policy.decimals, rfl, if_neg (by omega)⟩
  refine Checked.map_eq_ok.mpr ⟨(policy.type, policy.decimals, ()), Checked.and_eq_ok.mpr
    ⟨Checked.required_eq_ok.mpr ⟨_, rfl, Checked.single_eq_ok.mpr htype⟩,
      Checked.and_eq_ok.mpr ⟨?_, rfl⟩⟩, rfl⟩
  exact Checked.optional_eq_ok rfl (Checked.single_eq_ok.mpr hdecimals)

end RoundingPolicy

namespace RuleConfig

/-- A field as it is, or a rounding policy written in another way. -/
inductive Alike : Value → Value → Prop
  | same (v : Value) : Alike v v
  | policy {fields fields' : List (String × Value)} (h : Respelled TypeRecased fields fields') :
      Alike (.object fields) (.object fields')

theorem Alike.keeps_single {α : Type} {read : Value → Except IssueKind α}
    (hobject : ∀ fields a, read (.object fields) ≠ .ok a) (v v' : Value) (h : Alike v v') :
    (Checked.single read v).Keeps (Checked.single read v') := by
  cases h with
  | same => exact fun _ => id
  | policy h => exact .single fun a ha => absurd ha (hobject _ a)

theorem Alike.keeps_ofValue (v v' : Value) (h : Alike v v') :
    (RoundingPolicy.ofValue v).Keeps (RoundingPolicy.ofValue v') := by
  cases h with
  | same => exact fun _ => id
  | policy h => exact RoundingPolicy.keeps_ofFields h

section Fields

variable {fields fields' : List (String × Value)}

theorem keeps_headerOf (h : ∀ name, Option.Rel Alike (field? name fields) (field? name fields'))
    (only : Option String) : (headerOf fields only).Keeps (headerOf fields' only) := by
  refine .map _ (.and (.required (h _) ?_) (.and (.required (h _) ?_) (.optional _ (h _) ?_)))
  · cases only <;> exact Alike.keeps_single nofun
  · exact Alike.keeps_single nofun
  · exact Alike.keeps_single nofun

theorem keeps_percentField (h : ∀ name, Option.Rel Alike (field? name fields) (field? name fields'))
    (name : String) : (percentField fields name).Keeps (percentField fields' name) :=
  .required (h name) (Alike.keeps_single nofun)

theorem keeps_roundingField
    (h : ∀ name, Option.Rel Alike (field? name fields) (field? name fields')) (name : String) :
    (roundingField fields name).Keeps (roundingField fields' name) :=
  .required (h name) Alike.keeps_ofValue

theorem keeps_ofFields (h : ∀ name, Option.Rel Alike (field? name fields) (field? name fields'))
    (which : ConfigClass) : (ofFields fields which).Keeps (ofFields fields' which) := by
  cases which with
  | base => exact .map _ (.and (keeps_headerOf h none) (.closed headerNames h))
  | share =>
    exact .map _ (.and (keeps_headerOf h shareType) (.and
      (.map _ (.and (keeps_percentField h _) (.and (keeps_roundingField h _)
        (.and (keeps_percentField h _) (keeps_roundingField h _)))))
      (.closed (headerNames ++ shareNames) h)))
  | overall =>
    exact .map _ (.and (keeps_headerOf h overallType) (.and
      (.map _ (.and (keeps_percentField h _) (keeps_roundingField h _)))
      (.closed (headerNames ++ overallNames) h)))

end Fields

theorem headerOf_headerFields {fields : List (String × Value)} {only : Option String}
    {header : RuleHeader} (h : headerOf fields only = .ok header) (rest : List (String × Value)) :
    headerOf (headerFields header ++ rest) only = .ok header := by
  obtain ⟨-, honly, -, hassignment, -⟩ := headerOf_eq_ok.mp h
  refine headerOf_eq_ok.mpr ⟨rfl, honly, rfl, hassignment, Checked.optional_eq_ok rfl ?_⟩
  cases header.whenNoAssignments <;> rfl

theorem percentField_of_field? {fields : List (String × Value)} {name : String} {v : Value}
    {p : Binary64} (h : field? name fields = some v) (hp : Field.percent v = .ok p) :
    percentField fields name = .ok p :=
  Checked.required_eq_ok.mpr ⟨v, h, Checked.single_eq_ok.mpr hp⟩

theorem roundingField_of_field? {fields : List (String × Value)} {name : String}
    {policy : RoundingPolicy} (h : field? name fields = some policy.toValue) :
    roundingField fields name = .ok policy :=
  Checked.required_eq_ok.mpr ⟨_, h, policy.ofValue_toValue⟩

theorem shareTermsOf_of_field? {fields : List (String × Value)} {v w : Value} {p q : Binary64}
    {passed achieved : RoundingPolicy} (hv : field? "passed_assignments_percent" fields = some v)
    (hpassed : field? "passed_assignments_rounding" fields = some passed.toValue)
    (hw : field? "required_percent" fields = some w)
    (hachieved : field? "achieved_percent_rounding" fields = some achieved.toValue)
    (hp : Field.percent v = .ok p) (hq : Field.percent w = .ok q) :
    shareTermsOf fields = .ok ⟨p, passed, q, achieved⟩ :=
  Checked.map_eq_ok.mpr ⟨(p, passed, q, achieved), Checked.and_eq_ok.mpr
    ⟨percentField_of_field? hv hp, Checked.and_eq_ok.mpr
      ⟨roundingField_of_field? hpassed, Checked.and_eq_ok.mpr
        ⟨percentField_of_field? hw hq, roundingField_of_field? hachieved⟩⟩⟩, rfl⟩

theorem overallTermsOf_of_field? {fields : List (String × Value)} {v : Value} {p : Binary64}
    {achieved : RoundingPolicy} (hv : field? "required_percent" fields = some v)
    (hachieved : field? "achieved_percent_rounding" fields = some achieved.toValue)
    (hp : Field.percent v = .ok p) : overallTermsOf fields = .ok ⟨p, achieved⟩ :=
  Checked.map_eq_ok.mpr ⟨(p, achieved), Checked.and_eq_ok.mpr
    ⟨percentField_of_field? hv hp, roundingField_of_field? hachieved⟩, rfl⟩

theorem ofFields_toFields {fields : List (String × Value)} {which : ConfigClass}
    {config : RuleConfig} (h : ofFields fields which = .ok config) :
    ofFields config.toFields which = .ok config := by
  have hrange := inRange_ofFields h
  cases which with
  | base =>
    obtain ⟨⟨header, _⟩, hparts, rfl⟩ := Checked.map_eq_ok.mp h
    have hheader := headerOf_headerFields (Checked.and_eq_ok.mp hparts).1 []
    rw [List.append_nil] at hheader
    exact Checked.map_eq_ok.mpr ⟨(header, ()), Checked.and_eq_ok.mpr ⟨hheader, rfl⟩, rfl⟩
  | share =>
    obtain ⟨⟨header, terms, _⟩, hparts, rfl⟩ := Checked.map_eq_ok.mp h
    have hheader := headerOf_headerFields (Checked.and_eq_ok.mp hparts).1
    have hterms : shareTermsOf (toFields (.share header terms)) = .ok terms :=
      shareTermsOf_of_field? rfl rfl rfl rfl (Field.percent_eq_ok.mpr ⟨rfl, hrange.1⟩)
        (Field.percent_eq_ok.mpr ⟨rfl, hrange.2⟩)
    exact Checked.map_eq_ok.mpr ⟨(header, terms, ()), Checked.and_eq_ok.mpr
      ⟨hheader _, Checked.and_eq_ok.mpr ⟨hterms, rfl⟩⟩, rfl⟩
  | overall =>
    obtain ⟨⟨header, terms, _⟩, hparts, rfl⟩ := Checked.map_eq_ok.mp h
    have hheader := headerOf_headerFields (Checked.and_eq_ok.mp hparts).1
    have hterms : overallTermsOf (toFields (.overall header terms)) = .ok terms :=
      overallTermsOf_of_field? rfl rfl (Field.percent_eq_ok.mpr ⟨rfl, hrange⟩)
    exact Checked.map_eq_ok.mpr ⟨(header, terms, ()), Checked.and_eq_ok.mpr
      ⟨hheader _, Checked.and_eq_ok.mpr ⟨hterms, rfl⟩⟩, rfl⟩

theorem ruleType_ofFields {fields : List (String × Value)} {which : ConfigClass}
    {config : RuleConfig} (h : ofFields fields which = .ok config) :
    field? "type" fields = some (.text config.header.ruleType) := by
  cases which with
  | base =>
    obtain ⟨_, hparts, rfl⟩ := Checked.map_eq_ok.mp h
    exact (headerOf_eq_ok.mp (Checked.and_eq_ok.mp hparts).1).1
  | share =>
    obtain ⟨⟨_, _, _⟩, hparts, rfl⟩ := Checked.map_eq_ok.mp h
    exact (headerOf_eq_ok.mp (Checked.and_eq_ok.mp hparts).1).1
  | overall =>
    obtain ⟨⟨_, _, _⟩, hparts, rfl⟩ := Checked.map_eq_ok.mp h
    exact (headerOf_eq_ok.mp (Checked.and_eq_ok.mp hparts).1).1

section Parse

variable {classes : Table ConfigClass} {fields fields' : List (String × Value)}
  {config : RuleConfig}

/-- Where the type is in lower case already the fields are read as they are. -/
theorem parse_of_lower {type : String} {which : ConfigClass} (hlower : lowerCase type = type)
    (htype : field? "type" fields = some (.text type))
    (hwhich : classes.find? (.text type) = some which) (h : ofFields fields which = .ok config) :
    parse classes (.document (.object fields)) = .ok config := by
  refine parse_eq_ok.mpr ⟨fields, type, which, rfl, htype, ?_, ?_⟩
  · rw [hlower, hwhich]
  · rw [hlower, putField_of_field? htype, h]

theorem parse_toFields (h : parse classes (.document (.object fields)) = .ok config) :
    parse classes (.document (.object config.toFields)) = .ok config := by
  obtain ⟨_, given, which, ⟨⟩, -, hwhich, hread⟩ := parse_eq_ok.mp h
  have hname := ruleType_ofFields hread
  rw [field?_putField, Option.some.injEq, Value.text.injEq] at hname
  have htype : field? "type" config.toFields = some (.text (lowerCase given)) := by
    rw [hname]
    cases config <;> rfl
  exact parse_of_lower (lowerCase_lowerCase given) htype hwhich (ofFields_toFields hread)

theorem alike_of_respelled (h : Respelled FieldRespelled fields fields') (v : Value)
    (name : String) : Option.Rel Alike (field? name (putField "type" v fields))
      (field? name (putField "type" v fields')) := by
  by_cases hname : name = "type"
  · rw [hname, field?_putField, field?_putField]
    exact .some (.same v)
  · rw [field?_putField_of_ne hname, field?_putField_of_ne hname]
    have hrel := h.field? name
    generalize field? name fields = found at hrel ⊢
    generalize field? name fields' = found' at hrel ⊢
    cases hrel with
    | none => exact .none
    | some hv =>
      rcases hv with rfl | ⟨htype, -⟩ | ⟨hpolicy⟩
      · exact .some (.same _)
      · exact absurd htype hname
      · exact .some (.policy hpolicy)

theorem parse_of_respelled (h : parse classes (.document (.object fields)) = .ok config)
    (hrespelled : Respelled FieldRespelled fields fields') :
    parse classes (.document (.object fields')) = .ok config := by
  obtain ⟨_, given, which, ⟨⟩, htype, hwhich, hread⟩ := parse_eq_ok.mp h
  obtain ⟨given', htype', hlower⟩ : ∃ given', field? "type" fields' = some (.text given') ∧
      lowerCase given = lowerCase given' := by
    have hrel := hrespelled.field? "type"
    rw [htype] at hrel
    generalize field? "type" fields' = found at hrel ⊢
    cases hrel with
    | some hv =>
      rcases hv with rfl | ⟨-, hletters⟩
      · exact ⟨given, rfl, rfl⟩
      · exact ⟨_, rfl, hletters.lowerCase_eq⟩
  refine parse_eq_ok.mpr ⟨_, given', which, rfl, htype', by rwa [← hlower], ?_⟩
  rw [← hlower]
  exact keeps_ofFields (alike_of_respelled hrespelled _) which config hread

end Parse

end RuleConfig

/-- Parsing normalises a configuration: its own fields are read as the same configuration, and so is
what it was read from after any changes to the order of the keys, to that of the keys of its rounding
policies, or to the case of letters in its types. -/
theorem Registry.parse_settles {r : Registry} {fields : List (String × Value)} {config : RuleConfig}
    (h : r.parse (.document (.object fields)) = .ok config) :
    r.parse (.document (.object config.toFields)) = .ok config ∧
      ∀ fields', Relation.ReflTransGen (Respelled FieldRespelled) fields fields' →
        r.parse (.document (.object fields')) = .ok config := by
  refine ⟨RuleConfig.parse_toFields h, fun fields' hsteps => ?_⟩
  induction hsteps with
  | refl => exact h
  | tail _ hstep ih => exact RuleConfig.parse_of_respelled ih hstep

/-- A loosely written configuration. -/
def Sample.loose (type : String) (rounding : List (String × Value)) : List (String × Value) :=
  [("type", .text type), ("assignment_type", .text "HOMEWORK"), ("required_percent", .text " 60. "),
   ("achieved_percent_rounding", .object rounding)]

/-- All keys in the opposite order, and types in other case. -/
theorem Registry.parse_settles_backwards :
    ∃ config, standard.parse (.document (.object (Sample.loose "Required_Percent_Overall"
        [("type", .text "UP"), ("decimals", .bool true)]))) = .ok config ∧
      standard.parse (.document (.object config.toFields)) = .ok config ∧
      standard.parse (.document (.object (Sample.loose "required_percent_OVERALL"
        [("decimals", .bool true), ("type", .text "uP")]).reverse)) = .ok config := by
  have hparse : (standard.parse (.document (.object (Sample.loose "Required_Percent_Overall"
      [("type", .text "UP"), ("decimals", .bool true)])))).isOk = true := by decide +kernel
  obtain ⟨config, hparse⟩ := exists_of_isOk hparse
  obtain ⟨hfields, hrespelled⟩ := parse_settles hparse
  refine ⟨config, hparse, hfields, hrespelled _ ?_⟩
  have hletters : SameLetters "Required_Percent_Overall" "required_percent_OVERALL" := by
    unfold SameLetters
    decide +kernel
  have hletters' : SameLetters "UP" "uP" := by
    unfold SameLetters
    decide +kernel
  have hpolicy : Respelled FieldRespelled
      (Sample.loose "required_percent_OVERALL" [("type", .text "UP"), ("decimals", .bool true)])
      (Sample.loose "required_percent_OVERALL" [("type", .text "uP"), ("decimals", .bool true)]) :=
    .field [_, _, _] [] (.policy (.field [] _ (.intro rfl hletters')))
  have hkeys : Respelled FieldRespelled
      (Sample.loose "required_percent_OVERALL" [("type", .text "uP"), ("decimals", .bool true)])
      (Sample.loose "required_percent_OVERALL" [("decimals", .bool true), ("type", .text "uP")]) :=
    .field [_, _, _] [] (.policy (.order (by decide) (.swap ..)))
  exact .tail (.tail (.tail (.single (.field [] _ (.type rfl hletters))) hpolicy) hkeys)
    (.order (by decide) (List.reverse_perm _).symm)

end ExamAdmission
