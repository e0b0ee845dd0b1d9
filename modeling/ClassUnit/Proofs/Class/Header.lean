import ClassUnit.Proofs.Class.NormalForm

/-! # The header of a recorded class

A recorder tells from the name of a class whether it has a header. So headers without a name are
overwritten until one comes that has a name, and that one stays
(`ClassNode.acceptedHeaders_recorder`). A class has one header then, unless the first of several
lacks a name (`ClassNode.hasOneHeader_iff`). -/

namespace ClassUnit

open ClassVisitor (Message Session)

variable {σ : Type} {level : Level} {d : Session ClassNode}

/-! ## Headers in a visit -/

namespace ClassVisitor

def Message.header? : Message → Option ClassHeader
  | .unit (.header h) => some h
  | _ => none

theorem Message.header?_eq_some_iff {m : Message} {h : ClassHeader} :
    m.header? = some h ↔ m = .unit (.header h) := by
  constructor
  · intro hm
    match m, hm with
    | .unit (.header _), rfl => rfl
  · rintro rfl
    rfl

/-- The headers among the messages. -/
def headers (ms : List Message) : List ClassHeader := ms.filterMap Message.header?

/-- Of the headers sent to a visitor, the ones that it accepts. -/
def acceptedHeaders (v : ClassVisitor σ) : Session σ → List Message → List ClassHeader
  | _, [] => []
  | d, m :: ms =>
    match m.header?, v.hear d m with
    | some h, (some (.ok _), d') => h :: v.acceptedHeaders d' ms
    | _, (_, d') => v.acceptedHeaders d' ms

/-- Headers up to the first that has a name. -/
def upToNamed : List ClassHeader → List ClassHeader
  | [] => []
  | h :: hs => if h.name = "" then h :: upToNamed hs else [h]

theorem exists_cons_of_upToNamed_ne_nil {hs : List ClassHeader} (h : upToNamed hs ≠ []) :
    ∃ first later, hs = first :: later := by
  cases hs with
  | nil => exact absurd rfl h
  | cons first later => exact ⟨first, later, rfl⟩

theorem length_upToNamed_le_one_iff {hs : List ClassHeader} :
    (upToNamed hs).length ≤ 1 ↔ ∀ h h' rest, hs = h :: h' :: rest → h.name ≠ "" := by
  match hs with
  | [] => simp [upToNamed]
  | [h] => by_cases hname : h.name = "" <;> simp [upToNamed, hname]
  | h :: h' :: rest =>
    by_cases hname : h.name = ""
    · by_cases hname' : h'.name = "" <;> simp [upToNamed, hname, hname']
    · simp [upToNamed, hname]

end ClassVisitor

open ClassVisitor (acceptedHeaders headers upToNamed exists_cons_of_upToNamed_ne_nil
  length_upToNamed_le_one_iff)

namespace ClassNode

/-! ## What a recorder makes of a header -/

theorem hear_header (level : Level) (d : Session ClassNode) (h : ClassHeader) :
    (recorder level).hear d (.unit (.header h)) =
      if d.state.header.name = "" then (some (.ok false), .start { d.state with header := h })
      else (some (.error (.visitOrder .secondHeader)), .start d.state) := by
  rw [ClassVisitor.hear_unit, ClassVisitor.ask, Run.exec_map, exec_header]
  by_cases hname : d.state.header.name = "" <;> simp [hname, Except.map, Except.toOption]

/-- What is not a header leaves the header as it is. What goes to a field does, for the field is
recorded in its place. -/
theorem Recorded.header_hear (hd : Recorded level d) {m : Message} (hm : m.header? = none) :
    ((recorder level).hear d m).2.state.header = d.state.header := by
  cases m with
  | unit r =>
    cases r with
    | header h => cases hm
    | field h => rfl
    | method h => rfl
    | finish => rfl
  | member m =>
    cases hd with
    | between h => rfl
    | within h hfield =>
      rw [ClassVisitor.hear_member_some, FieldVisitor.hear_on (fieldAt_sits _)]
      rfl

/-- Once a class has a name, its header stays and any further one is refused. -/
theorem Recorded.acceptedHeaders_of_named (hd : Recorded level d)
    (hname : d.state.header.name ≠ "") (ms : List Message) :
    (recorder level).acceptedHeaders d ms = [] ∧
      ((recorder level).after d ms).state.header = d.state.header := by
  induction ms generalizing d with
  | nil => exact ⟨rfl, rfl⟩
  | cons m ms ih =>
    rw [acceptedHeaders, ClassVisitor.after_cons]
    cases hm : m.header? with
    | none =>
      have hheader := hd.header_hear hm
      obtain ⟨haccepted, hafter⟩ := ih (hd.hear m) (by rwa [hheader])
      exact ⟨haccepted, hafter.trans hheader⟩
    | some h =>
      obtain rfl := Message.header?_eq_some_iff.1 hm
      have hheard := hear_header level d h
      rw [if_neg hname] at hheard
      rw [hheard]
      exact ih (.between hd.fits) hname

/-- Until a class has a name, headers are accepted up to the first that has one, and the last of
them stays. -/
theorem Recorded.acceptedHeaders_of_unnamed (hd : Recorded level d)
    (hname : d.state.header.name = "") (ms : List Message) :
    (recorder level).acceptedHeaders d ms = upToNamed (headers ms) ∧
      ((recorder level).after d ms).state.header =
        (upToNamed (headers ms)).getLastD d.state.header := by
  induction ms generalizing d with
  | nil => exact ⟨rfl, rfl⟩
  | cons m ms ih =>
    rw [acceptedHeaders, ClassVisitor.after_cons]
    cases hm : m.header? with
    | none =>
      have hheader := hd.header_hear hm
      rw [headers, List.filterMap_cons_none hm, ← hheader]
      exact ih (hd.hear m) ((congrArg ClassHeader.name hheader).trans hname)
    | some h =>
      obtain rfl := Message.header?_eq_some_iff.1 hm
      have hheard := hear_header level d h
      rw [if_pos hname] at hheard
      rw [headers, List.filterMap_cons_some hm, upToNamed, hheard]
      have hrecorded : Recorded level (.start { d.state with header := h }) := .between hd.fits
      by_cases hh : h.name = ""
      · obtain ⟨haccepted, hafter⟩ := ih hrecorded hh
        rw [if_pos hh, List.getLastD_cons]
        exact ⟨congrArg (h :: ·) haccepted, hafter⟩
      · obtain ⟨haccepted, hafter⟩ := hrecorded.acceptedHeaders_of_named hh ms
        rw [if_neg hh]
        exact ⟨congrArg (h :: ·) haccepted, hafter⟩

/-! ## One header -/

/-- At most one header is accepted. Any header after it is refused, and leaves the class as it
was. -/
structure HasOneHeader (level : Level) (ms : List Message) : Prop where
  unique : ((recorder level).acceptedHeaders (.start {}) ms).length ≤ 1
  settled : ∀ before h rest, ms = before ++ .unit (.header h) :: rest →
    (recorder level).acceptedHeaders (.start {}) before ≠ [] →
      let d := (recorder level).after (.start {}) before
      (recorder level).hear d (.unit (.header h)) =
        (some (.error (.visitOrder .secondHeader)), .start d.state)

theorem recorded_start : Recorded level (.start {}) := .between (List.forall_mem_nil _)

theorem acceptedHeaders_recorder (level : Level) (ms : List Message) :
    (recorder level).acceptedHeaders (.start {}) ms = upToNamed (headers ms) :=
  (recorded_start.acceptedHeaders_of_unnamed rfl ms).1

/-- The first header stays if it has a name. -/
theorem header_after (level : Level) {ms : List Message} {h : ClassHeader} {hs : List ClassHeader}
    (hheaders : headers ms = h :: hs) (hname : h.name ≠ "") :
    ((recorder level).after (.start {}) ms).state.header = h := by
  have hstart : Recorded level (.start {}) := recorded_start
  have hafter := (hstart.acceptedHeaders_of_unnamed rfl ms).2
  rw [hheaders, upToNamed, if_neg hname] at hafter
  exact hafter

/-- A recorded class has one header, which is the first that was sent and stays as it is, unless
others follow one that lacks a name. -/
theorem hasOneHeader_iff (level : Level) (ms : List Message) :
    HasOneHeader level ms ↔ ∀ h h' rest, headers ms = h :: h' :: rest → h.name ≠ "" := by
  constructor
  · intro hone
    have hunique := hone.unique
    rwa [acceptedHeaders_recorder, length_upToNamed_le_one_iff] at hunique
  · intro hnamed
    constructor
    · rwa [acceptedHeaders_recorder, length_upToNamed_le_one_iff]
    · intro before h rest hms haccepted d
      rw [acceptedHeaders_recorder] at haccepted
      obtain ⟨h₀, hs, hbefore⟩ := exists_cons_of_upToNamed_ne_nil haccepted
      have hname : h₀.name ≠ "" := by
        have hheaders : headers ms = h₀ :: (hs ++ h :: headers rest) := by
          rw [hms, headers, List.filterMap_append, ← headers, hbefore]
          rfl
        cases hs with
        | nil => exact hnamed _ _ _ hheaders
        | cons h₁ hs => exact hnamed _ _ _ hheaders
      have hstate : d.state.header.name ≠ "" := by
        rwa [show d.state.header = h₀ from header_after level hbefore hname]
      rw [hear_header, if_neg hstate]

/-- A field and an end come before the second header, which lacks a name itself. -/
theorem hasOneHeader_named :
    (∀ h h' rest, headers [.unit (.header ⟨33, "a/B", none, none⟩),
        .unit (.field ⟨2, "f", "I", none⟩), .member (.field (.annotate "LMark;" true)),
        .unit .finish, .unit (.header ⟨1, "", none, none⟩)] = h :: h' :: rest → h.name ≠ "") ∧
      HasOneHeader .asm7 [.unit (.header ⟨33, "a/B", none, none⟩),
        .unit (.field ⟨2, "f", "I", none⟩), .member (.field (.annotate "LMark;" true)),
        .unit .finish, .unit (.header ⟨1, "", none, none⟩)] := by
  refine ⟨?_, (hasOneHeader_iff .asm7 _).2 ?_⟩
  · rintro h h' rest ⟨⟩
    decide
  · rintro h h' rest ⟨⟩
    decide

/-- A header without a name is overwritten. -/
theorem not_hasOneHeader_unnamed :
    ¬HasOneHeader .asm7
      [.unit (.header ⟨33, "", none, none⟩), .unit (.header ⟨1, "x", none, none⟩)] := by
  rintro ⟨hunique, -⟩
  rw [acceptedHeaders_recorder] at hunique
  exact absurd hunique (by decide)

end ClassNode

end ClassUnit
