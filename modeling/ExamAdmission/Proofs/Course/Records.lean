import ExamAdmission.Course.Records
import ExamAdmission.Proofs.Document.NumberOrder
import ExamAdmission.Proofs.Outcome

/-! Records are read the same in any spelling of their fields. What reading made of a field is left
as it is when it is read again. -/

namespace ExamAdmission

attribute [local irreducible] rangeEnd Binary64.unit

variable {fields data : List (String × Value)} {absent : Option Value} {v : Value}

/-- An object gives a value for a field of several spellings: under the first spelling that is there,
whatever the later ones hold, or as what stands for the field when no spelling is there. -/
inductive Spelled (fields : List (String × Value)) (absent : Option Value) (v : Value) :
    List String → Prop
  | absent (h : absent = some v) : Spelled fields absent v []
  | here {name : String} (others : List String) (h : field? name fields = some v) :
      Spelled fields absent v (name :: others)
  | later {name : String} {others : List String} (h : field? name fields = none)
      (hothers : Spelled fields absent v others) : Spelled fields absent v (name :: others)

theorem pick?_object (fields : List (String × Value)) (names : List String) :
    (Value.object fields).pick? names = .ok (names.findSome? fun name => field? name fields) := by
  induction names with
  | nil => rfl
  | cons name others ih =>
    rw [List.findSome?_cons, Value.pick?]
    cases h : field? name fields with
    | none => simpa [Value.mentions, h, bind, Except.bind] using ih
    | some v => simp [Value.mentions, Value.item, h, bind, Except.bind, pure, Except.pure]

theorem spelled_iff {names : List String} : Spelled fields absent v names ↔
    (names.findSome? fun name => field? name fields).or absent = some v := by
  induction names with
  | nil => exact ⟨fun | .absent h => h, .absent⟩
  | cons name others ih =>
    rw [List.findSome?_cons]
    cases h : field? name fields with
    | none =>
      rw [← ih]
      constructor
      · rintro (_ | ⟨_, hhere⟩ | ⟨-, hothers⟩)
        · cases h.symm.trans hhere
        · exact hothers
      · exact .later h
    | some w =>
      constructor
      · rintro (_ | ⟨_, hhere⟩ | ⟨hnone, -⟩)
        · exact h.symm.trans hhere
        · cases h.symm.trans hnone
      · rintro ⟨⟩
        exact .here others h

theorem spelled_some_iff {d : Value} {names : List String} : Spelled fields (some d) v names ↔
    (names.findSome? fun name => field? name fields).getD d = v := by
  rw [spelled_iff, Option.or_some, Option.some.injEq]

theorem Spelled.or {names : List String} (h : Spelled fields none v names) (absent : Option Value) :
    Spelled fields absent v names := by
  rw [spelled_iff, Option.or_none] at h
  rw [spelled_iff, h, Option.some_or]

theorem item_object_eq_ok {name : String} :
    (Value.object fields).item name = .ok v ↔ Spelled fields none v [name] := by
  rw [spelled_iff, List.findSome?_singleton, Option.or_none, Value.item]
  cases field? name fields <;> simp

namespace Assessment

/-- The object gives the fields of the assessment as they are. Who it is of, the points and the draft
mark may be left out where they are the ones that stand for nothing. -/
structure GivenBy (a : Assessment) (fields : List (String × Value)) : Prop where
  id : Spelled fields none a.id ["id"]
  assignmentId : Spelled fields none a.assignmentId ["assignment_id", "assignmentId"]
  userId : Spelled fields (some .null) a.userId ["user_id", "userId"]
  groupId : Spelled fields (some .null) a.groupId ["group_id", "groupId"]
  achievedPoints : Spelled fields (some .null) a.achievedPoints ["achieved_points", "achievedPoints"]
  isDraft : Spelled fields (some (.bool false)) a.isDraft ["is_draft", "isDraft"]

/-- The fields are what reading makes of them. -/
structure Settled (a : Assessment) : Prop where
  id : .text a.id.shown = a.id
  assignmentId : .text a.assignmentId.shown = a.assignmentId
  userId : textOrNull a.userId = a.userId
  groupId : textOrNull a.groupId = a.groupId
  achievedPoints : pointsOrNull a.achievedPoints = .ok a.achievedPoints
  isDraft : .bool a.isDraft.holds = a.isDraft

theorem textOrNull_textOrNull (v : Value) : textOrNull (textOrNull v) = textOrNull v := by
  cases v <;> rfl

theorem pointsOrNull_pointsOrNull {w : Value} (h : pointsOrNull v = .ok w) :
    pointsOrNull w = .ok w := by
  unfold pointsOrNull at h
  split at h
  · cases h
    rfl
  · obtain ⟨x, -, ⟨⟩⟩ := bind_eq_ok.mp h
    rfl

theorem read_of_unassigned
    (h : Spelled fields (some .null) .null ["assignment_id", "assignmentId"]) :
    read (.object fields) = .error (.missingKey "assignment_id") := by
  simp only [read, pick?_object, bind, Except.bind, spelled_some_iff.mp h]

theorem read_eq_ok {a : Assessment} : read (.object fields) = .ok a ↔
    ∃ id assignment user group achieved draft, Spelled fields none id ["id"] ∧
      Spelled fields (some .null) assignment ["assignment_id", "assignmentId"] ∧
      Spelled fields (some .null) user ["user_id", "userId"] ∧
      Spelled fields (some .null) group ["group_id", "groupId"] ∧
      Spelled fields (some .null) achieved ["achieved_points", "achievedPoints"] ∧
      Spelled fields (some (.bool false)) draft ["is_draft", "isDraft"] ∧
      assignment ≠ .null ∧ ∃ points, pointsOrNull achieved = .ok points ∧
        a = ⟨.text id.shown, .text assignment.shown, textOrNull user, textOrNull group, points,
          .bool draft.holds⟩ := by
  simp only [spelled_some_iff]
  constructor
  · intro h
    simp only [read, pick?_object] at h
    obtain ⟨_, ⟨⟩, h⟩ := bind_eq_ok.mp h
    obtain ⟨_, ⟨⟩, h⟩ := bind_eq_ok.mp h
    obtain ⟨_, ⟨⟩, h⟩ := bind_eq_ok.mp h
    obtain ⟨_, ⟨⟩, h⟩ := bind_eq_ok.mp h
    split at h
    · cases h
    · rename_i hassigned
      obtain ⟨id, hid, h⟩ := bind_eq_ok.mp h
      obtain ⟨points, hpoints, h⟩ := bind_eq_ok.mp h
      obtain ⟨_, ⟨⟩, ⟨⟩⟩ := bind_eq_ok.mp h
      exact ⟨id, _, _, _, _, _, item_object_eq_ok.mp hid, rfl, rfl, rfl, rfl, rfl, hassigned, points,
        hpoints, rfl⟩
  · rintro ⟨id, _, _, _, _, _, hid, rfl, rfl, rfl, rfl, rfl, hassigned, points, hpoints, rfl⟩
    simp only [read, pick?_object]
    refine bind_eq_ok.mpr ⟨_, rfl, bind_eq_ok.mpr ⟨_, rfl, bind_eq_ok.mpr ⟨_, rfl,
      bind_eq_ok.mpr ⟨_, rfl, ?_⟩⟩⟩⟩
    split
    · rename_i hnull
      exact absurd hnull hassigned
    · exact bind_eq_ok.mpr ⟨id, item_object_eq_ok.mpr hid, bind_eq_ok.mpr ⟨points, hpoints,
        bind_eq_ok.mpr ⟨_, rfl, rfl⟩⟩⟩

theorem settled_of_read {a : Assessment} (h : read (.object data) = .ok a) : a.Settled := by
  obtain ⟨_, _, user, group, achieved, draft, -, -, -, -, -, -, -, points, hpoints, rfl⟩ :=
    read_eq_ok.mp h
  exact ⟨rfl, rfl, textOrNull_textOrNull user, textOrNull_textOrNull group,
    pointsOrNull_pointsOrNull hpoints, rfl⟩

theorem read_of_givenBy {a : Assessment} (hsettled : a.Settled) (h : a.GivenBy fields) :
    read (.object fields) = .ok a := by
  have hassigned : a.assignmentId ≠ .null := by
    rw [← hsettled.assignmentId]
    exact nofun
  refine read_eq_ok.mpr ⟨_, _, _, _, _, _, h.id, h.assignmentId.or _, h.userId, h.groupId,
    h.achievedPoints, h.isDraft, hassigned, a.achievedPoints, hsettled.achievedPoints, ?_⟩
  rw [hsettled.id, hsettled.assignmentId, hsettled.userId, hsettled.groupId, hsettled.isDraft]

end Assessment

namespace Assignment

/-- The object gives the fields of the assignment as they are. The course and the points may be left
out where they are empty and zero. -/
structure GivenBy (a : Assignment) (fields : List (String × Value)) : Prop where
  id : Spelled fields none a.id ["id"]
  courseId : Spelled fields (some (.text "")) a.courseId ["course_id", "courseId"]
  type : Spelled fields none a.type ["type"]
  points : Spelled fields (some (.float (.zero false))) a.points ["points"]

theorem read_eq_ok {a : Assignment} : read (.object fields) = .ok a ↔
    ∃ id course type points, Spelled fields none id ["id"] ∧
      Spelled fields (some (.text "")) course ["course_id", "courseId"] ∧
      Spelled fields none type ["type"] ∧ Spelled fields (some (.int 0)) points ["points"] ∧
      ∃ x, points.toBinary64 = .ok x ∧
        a = ⟨.text id.shown, .text course.shown, .text type.shown, .float x⟩ := by
  simp only [spelled_some_iff]
  constructor
  · intro h
    simp only [read, pick?_object] at h
    obtain ⟨id, hid, h⟩ := bind_eq_ok.mp h
    obtain ⟨_, ⟨⟩, h⟩ := bind_eq_ok.mp h
    obtain ⟨type, htype, h⟩ := bind_eq_ok.mp h
    obtain ⟨_, ⟨⟩, h⟩ := bind_eq_ok.mp h
    obtain ⟨x, hx, ⟨⟩⟩ := bind_eq_ok.mp h
    exact ⟨id, _, type, _, item_object_eq_ok.mp hid, rfl, item_object_eq_ok.mp htype, rfl, x, hx, rfl⟩
  · rintro ⟨id, _, type, _, hid, rfl, htype, rfl, x, hx, rfl⟩
    simp only [read, pick?_object]
    exact bind_eq_ok.mpr ⟨id, item_object_eq_ok.mpr hid, bind_eq_ok.mpr ⟨_, rfl,
      bind_eq_ok.mpr ⟨type, item_object_eq_ok.mpr htype, bind_eq_ok.mpr ⟨_, rfl,
        bind_eq_ok.mpr ⟨x, hx, rfl⟩⟩⟩⟩⟩

/-- The fields are what reading makes of them. -/
structure Settled (a : Assignment) : Prop where
  id : .text a.id.shown = a.id
  courseId : .text a.courseId.shown = a.courseId
  type : .text a.type.shown = a.type
  points : ∃ x, a.points = .float x

theorem settled_of_read {a : Assignment} (h : read (.object data) = .ok a) : a.Settled := by
  obtain ⟨_, _, _, _, -, -, -, -, x, -, rfl⟩ := read_eq_ok.mp h
  exact ⟨rfl, rfl, rfl, x, rfl⟩

theorem read_of_givenBy {a : Assignment} (hsettled : a.Settled) (h : a.GivenBy fields) :
    read (.object fields) = .ok a := by
  obtain ⟨x, hx⟩ := hsettled.points
  -- points that are left out are the integer zero at first
  obtain ⟨points, hpoints, hdouble⟩ : ∃ points, Spelled fields (some (.int 0)) points ["points"] ∧
      points.toBinary64 = .ok x := by
    rcases h.points with _ | ⟨_, hhere⟩ | ⟨hnone, ⟨hzero⟩⟩
    · exact ⟨_, .here _ hhere, hx ▸ rfl⟩
    · cases hzero.trans (congrArg some hx)
      exact ⟨_, .later hnone (.absent rfl), Number.toBinary64_zero⟩
  refine read_eq_ok.mpr ⟨_, _, _, points, h.id, h.courseId, h.type, hpoints, x, hdouble, ?_⟩
  rw [hsettled.id, hsettled.courseId, hsettled.type, ← hx]

end Assignment

/-- A record that was read is read again from every object that gives its fields, whatever their
spellings, their order and the other keys are. Without an assignment no object is an assessment,
whatever else it holds. -/
theorem records_read_alike :
    (∀ data a, Assessment.read (.object data) = .ok a →
      ∀ fields, a.GivenBy fields → Assessment.read (.object fields) = .ok a) ∧
    (∀ data a, Assignment.read (.object data) = .ok a →
      ∀ fields, a.GivenBy fields → Assignment.read (.object fields) = .ok a) ∧
    ∀ fields, Spelled fields (some .null) .null ["assignment_id", "assignmentId"] →
      Assessment.read (.object fields) = .error (.missingKey "assignment_id") :=
  ⟨fun _ _ h _ => Assessment.read_of_givenBy (Assessment.settled_of_read h),
    fun _ _ h _ => Assignment.read_of_givenBy (Assignment.settled_of_read h),
    fun _ => Assessment.read_of_unassigned⟩

namespace Sample

/-- An assessment in one spelling, with numbers for names. -/
def camel : List (String × Value) :=
  [("isDraft", .int 0), ("achievedPoints", .int 5), ("assignmentId", .int 3), ("id", .int 7),
   ("groupId", .text "g1")]

/-- The same in mixed spellings, with what counts for nothing beside it. -/
def mixed (points : Binary64) : List (String × Value) :=
  [("id", .text "7"), ("comment", .text "late"), ("achievedPoints", .null), ("assignmentId", .null),
   ("assignment_id", .text "3"), ("groupId", .text "g1"), ("achieved_points", .float points)]

end Sample

theorem records_read_alike_mixed :
    (∃ x a, Assessment.read (.object Sample.camel) = .ok a ∧
      Assessment.read (.object (Sample.mixed x)) = .ok a) ∧
    (∃ a, Assignment.read (.object [("type", .text "T"), ("id", .int 3)]) = .ok a ∧
      Assignment.read (.object [("course_id", .text ""), ("courseId", .null), ("id", .text "3"),
        ("type", .text "T")]) = .ok a) ∧
    Assessment.read (.object [("assignmentId", .int 3), ("assignment_id", .null)]) =
      .error (.missingKey "assignment_id") := by
  obtain ⟨hassessment, hassignment, hunassigned⟩ := records_read_alike
  have htext : (Value.int 3).shown = "3" ∧ (Value.int 7).shown = "7" := by decide +kernel
  obtain ⟨x, hx⟩ := exists_of_isOk (x := (Value.int 5).toBinary64) (by decide +kernel)
  have hread : Assessment.read (.object Sample.camel) =
      .ok ⟨.text "7", .text "3", .null, .text "g1", .float x, .bool false⟩ := by
    rw [← htext.1, ← htext.2]
    exact Assessment.read_eq_ok.mpr ⟨.int 7, .int 3, .null, .text "g1", .int 5, .int 0, .here _ rfl,
      .later rfl (.here _ rfl), .later rfl (.later rfl (.absent rfl)), .later rfl (.here _ rfl),
      .later rfl (.here _ rfl), .later rfl (.here _ rfl), nofun, .float x, bind_eq_ok.mpr ⟨x, hx, rfl⟩,
      rfl⟩
  have hread' : Assignment.read (.object [("type", .text "T"), ("id", .int 3)]) =
      .ok ⟨.text "3", .text "", .text "T", .float (.zero false)⟩ := by
    rw [← htext.1]
    exact Assignment.read_eq_ok.mpr ⟨.int 3, .text "", .text "T", .int 0, .here _ rfl,
      .later rfl (.later rfl (.absent rfl)), .here _ rfl, .later rfl (.absent rfl), .zero false,
      Number.toBinary64_zero, rfl⟩
  refine ⟨⟨x, _, hread, hassessment _ _ hread _ ?_⟩, ⟨_, hread', hassignment _ _ hread' _ ?_⟩,
    hunassigned _ (.here _ rfl)⟩
  · exact ⟨.here _ rfl, .here _ rfl, .later rfl (.later rfl (.absent rfl)), .later rfl (.here _ rfl),
      .here _ rfl, .later rfl (.later rfl (.absent rfl))⟩
  · exact ⟨.here _ rfl, .here _ rfl, .here _ rfl, .later rfl (.absent rfl)⟩

end ExamAdmission
