import ClassUnit.Proofs.Class.Session
import ClassUnit.Proofs.Field.NormalForm

/-! # Recorded classes

A class that was recorded at a level holds only fields that fit it, wherever the visit stops
(`ClassNode.Recorded.after`). So its replay onto a recorder of that level is accepted throughout,
and records the class once more with all that was left open closed. -/

namespace ClassUnit

variable {level : Level}

namespace ClassNode

/-- What can be recorded at a level. -/
def Fits (level : Level) (c : ClassNode) : Prop := ∀ f ∈ c.fields, f.Fits level

/-- The class with its fields closed, and its own end. -/
def closed (c : ClassNode) : ClassNode where
  header := c.header
  fields := c.fields.map (·.closed)
  methods := c.methods
  finished := true

@[simp]
theorem closed_closed (c : ClassNode) : c.closed.closed = c.closed := by
  simp [closed]

theorem Fits.closed {c : ClassNode} (h : c.Fits level) : c.closed.Fits level := by
  intro g hg
  obtain ⟨f, hf, rfl⟩ := List.mem_map.1 hg
  exact (h f hf).closed

/-! ## What is recorded of a visit -/

/-- The class with one more field. -/
def withField (c : ClassNode) (f : FieldNode) : ClassNode := { c with fields := c.fields ++ [f] }

/-- The field that comes last. -/
theorem fieldAt_sits (c : ClassNode) : (fieldAt c.fields.length).Sits c.withField := by
  have hclass : (Part.mk ClassNode.fields fun fields n => { n with fields }).Sits
      fun fields => { c with fields } := ⟨fun _ => rfl, fun _ _ => rfl⟩
  exact (Part.item_sits c.fields).within hclass

theorem Fits.withField {c : ClassNode} {f : FieldNode} (h : c.Fits level) (hf : f.Fits level) :
    (c.withField f).Fits level := by
  intro g hg
  rcases List.mem_append.1 hg with hg | hg
  · exact h g hg
  · rw [List.mem_singleton.1 hg]
    exact hf

/-- The sessions of a recorder. Between fields it holds fields that fit; within a field, which comes
last, that field is being recorded in its place. -/
inductive Recorded (level : Level) : ClassVisitor.Session ClassNode → Prop
  | between {c : ClassNode} (h : c.Fits level) : Recorded level (.start c)
  | within {c : ClassNode} (h : c.Fits level) {header : FieldHeader}
      {xs : List FieldVisitor.Exchange} {d : FieldVisitor.Session FieldNode}
      (hd : FieldNode.Recorded level header xs d) :
      Recorded level
        ⟨some ((FieldNode.recorder level).on (fieldAt c.fields.length)),
          d.placed (fieldAt c.fields.length) c.withField⟩

theorem exec_header (level : Level) (c : ClassNode) (h : ClassHeader) :
    ((recorder level).header h).exec c =
      if c.header.name.isEmpty then (.ok (), { c with header := h })
      else (.error (.visitOrder .secondHeader), c) := by
  by_cases hname : c.header.name.isEmpty
  · rw [if_pos hname]
    refine (Run.exec_bind_of_ok (a := c) rfl).trans ?_
    rw [if_pos hname]
    rfl
  · rw [if_neg hname]
    refine (Run.exec_bind_of_ok (a := c) rfl).trans ?_
    rw [if_neg hname]
    rfl

theorem exec_field (level : Level) (c : ClassNode) (h : FieldHeader) :
    ((recorder level).field h).exec c =
      (.ok (some ((FieldNode.recorder level).on (fieldAt c.fields.length))),
        c.withField { header := h }) := rfl

namespace Recorded

variable {d : ClassVisitor.Session ClassNode}

theorem fits (h : Recorded level d) : d.state.Fits level := by
  cases h with
  | between h => exact h
  | within h hd => exact h.withField hd.fits

theorem hear (h : Recorded level d) (m : ClassVisitor.Message) :
    Recorded level ((recorder level).hear d m).2 := by
  cases m with
  | unit r =>
    have hfits := h.fits
    cases r with
    | header h' =>
      rw [ClassVisitor.hear_unit, ClassVisitor.ask, Run.exec_map, exec_header]
      split
      · exact .between hfits
      · exact .between hfits
    | field h' =>
      -- the new field is at hand, with nothing recorded of it yet
      have hd : FieldNode.Recorded level h' [] (.start { header := h' }) :=
        .idle rfl (List.forall_mem_nil _)
      exact .within hfits hd
    | method h' => exact .between hfits
    | finish => exact .between hfits
  | member m =>
    cases h with
    | between h => exact .between h
    | within h hd =>
      rw [ClassVisitor.hear_member_some, FieldVisitor.hear_on (fieldAt_sits _)]
      exact .within h (hd.after [m])

theorem after (h : Recorded level d) (ms : List ClassVisitor.Message) :
    Recorded level ((recorder level).after d ms) := by
  induction ms generalizing d with
  | nil => exact h
  | cons m ms ih => exact ih (h.hear m)

end Recorded

/-! ## The recorder on a replay -/

/-- The recorder records the class once more, with every end. -/
theorem exec_replay_recorder {c : ClassNode} (h : c.Fits level) :
    (c.replay (recorder level)).exec {} = (.ok (), c.closed) := by
  obtain ⟨header, fields, methods, finished⟩ := c
  have hfields : Run.Adds (fun fields => { header, fields })
      (fields.forM fun f => do replayOnto f (← (recorder level).field f.header))
      (fields.map (·.closed)) := by
    refine Run.Adds.map fields fun f hf fs => ?_
    rw [Run.exec_bind_of_ok (exec_field level _ f.header)]
    refine (FieldNode.exec_replay_on (fieldAt_sits { header, fields := fs }) f _ _).trans ?_
    rw [FieldNode.exec_replay_recorder (h f hf)]
    rfl
  have hmethods (fields : List FieldNode) :
      Run.Adds (fun methods => { header, fields, methods })
        (methods.forM (recorder level).method) (methods.map id) :=
    Run.Adds.map methods fun _ _ _ => rfl
  rw [List.map_id] at hmethods
  have hheader := exec_header level {} header
  rw [if_pos (by rfl)] at hheader
  refine (Run.exec_bind_of_ok hheader).trans ?_
  refine (Run.exec_bind_of_ok (hfields [])).trans ?_
  exact Run.exec_bind_of_ok (hmethods _ [])

end ClassNode

/-! ## Normal form -/

open FieldVisitor (accepted regrouped scribe)

/-- What a field has recorded is replayed as the messages that it accepted, grouped by kinds and
closed. What a recorder makes of that is the field or the class itself with every end, and a further
replay changes nothing. -/
theorem replay_normal_form (level : Level) :
    (∀ (header : FieldHeader) (ms : List FieldVisitor.Message),
      let start : FieldVisitor.Session FieldNode := .start { header }
      let n := ((FieldNode.recorder level).after start ms).state
      (∀ l : Level, .asm5 ≤ l →
        (n.replay (scribe l)).exec [] =
          (.ok (), regrouped (accepted (FieldNode.recorder level) start ms))) ∧
      (n.replay (FieldNode.recorder level)).exec { header } = (.ok (), n.closed) ∧
      (n.closed.replay (FieldNode.recorder level)).exec { header } = (.ok (), n.closed)) ∧
    ∀ ms : List ClassVisitor.Message,
      let c := ((ClassNode.recorder level).after (.start {}) ms).state
      (c.replay (ClassNode.recorder level)).exec {} = (.ok (), c.closed) ∧
      (c.closed.replay (ClassNode.recorder level)).exec {} = (.ok (), c.closed) := by
  constructor
  · intro header ms start n
    have hstart : FieldNode.Recorded level header [] start := .idle rfl (List.forall_mem_nil _)
    have hrecorded := hstart.after ms
    have hheader : n.header = header := congrArg FieldNode.header hrecorded.state
    refine ⟨fun l hl => ?_, ?_, ?_⟩
    · refine (n.scribe_replay hl []).trans ?_
      rw [← FieldNode.messages_ofExchanges header]
      exact congrArg (fun n => (Except.ok (), FieldNode.messages n)) hrecorded.state
    · rw [← hheader]
      exact FieldNode.exec_replay_recorder hrecorded.fits
    · have hclosed := FieldNode.exec_replay_recorder hrecorded.fits.closed
      rw [FieldNode.closed_closed] at hclosed
      rw [← hheader]
      exact hclosed
  · intro ms c
    have hstart : ClassNode.Recorded level (.start {}) := .between (List.forall_mem_nil _)
    have hrecorded := hstart.after ms
    refine ⟨ClassNode.exec_replay_recorder hrecorded.fits, ?_⟩
    have hclosed := ClassNode.exec_replay_recorder hrecorded.fits.closed
    rw [ClassNode.closed_closed] at hclosed
    exact hclosed

/-- An attribute comes first. The annotation after it is never ended, but the field is, twice. -/
theorem replay_normal_form_regroups :
    Level.asm5 ≤ Level.asm7 ∧
      (((FieldNode.recorder .asm5).after (.start { header := ⟨0, "x", "I", none⟩ })
          [.field (.attach ⟨"Slot", []⟩), .field (.annotate "LMark;" true),
            .element (.visit ⟨some "at", .int 1⟩), .field .finish,
            .field .finish]).state.replay (scribe .asm7)).exec [] =
        (.ok (), [.field (.annotate "LMark;" true), .element (.visit ⟨some "at", .int 1⟩),
          .element .finish, .field (.attach ⟨"Slot", []⟩), .field .finish]) :=
  ⟨by decide, ((replay_normal_form .asm5).1 ⟨0, "x", "I", none⟩ _).1 .asm7 (by decide)⟩

end ClassUnit
