import ClassUnit.Proofs.Field.Recording

/-! # Replays of recorded fields

A visitor that writes everything down takes the messages of a recorded field as they are
(`FieldNode.exec_replay_scribe`). A recorder at the field's own level records the field once more,
with everything in it closed (`FieldNode.exec_replay_recorder`). It would refuse type annotations
below the level that these came with, but a field that was recorded there holds none. -/

namespace ClassUnit

open FieldVisitor (Message accepted notes regrouped scribe)

variable {level : Level}

/-! ## Annotations -/

namespace AnnotationNode

/-- The annotation, with its end. -/
def closed (n : AnnotationNode) : AnnotationNode := { n with finished := true }

@[simp]
theorem closed_closed (n : AnnotationNode) : n.closed.closed = n.closed := rfl

theorem notes_replay (n : AnnotationNode) :
    (n.replay notes).Adds id (n.requests.map Message.element) := by
  rw [replay_eq]
  refine Run.Adds.map n.requests fun r _ log => ?_
  cases r <;> rfl

/-- An annotation that is recorded in its place has its elements and its end. -/
theorem exec_replay_on_place {part : Part σ AnnotationNode} {place : AnnotationNode → σ}
    (h : part.Sits place) (n : AnnotationNode) :
    (n.replay (recorder.on part)).exec
        (place { descriptor := n.descriptor, visible := n.visible }) =
      (.ok (), place n.closed) := by
  have hadds : (n.replay (recorder.on part)).Adds
      (fun rs => place (ofRequests n.descriptor n.visible rs)) (n.requests.map id) := by
    rw [replay_eq]
    refine Run.Adds.map n.requests fun r _ rs => ?_
    rw [AnnotationVisitor.ask_on, Run.exec_on_place h, exec_recorder]
    rfl
  have hrequests : ofRequests n.descriptor n.visible n.requests = n.closed := by
    simp [ofRequests, requests, closed, List.filterMap_append, AnnotationVisitor.Request.element?,
      AnnotationVisitor.Request.isEnd, Function.comp_def]
  have hall := hadds []
  rw [List.map_id, List.nil_append] at hall
  rw [← hrequests]
  exact hall

end AnnotationNode

/-! ## Fields -/

namespace FieldNode

/-- What can be recorded at a level: below the one that type annotations came with there are
none. -/
def Fits (level : Level) (n : FieldNode) : Prop := level < .asm5 → n.typeAnnotations = []

/-- The field with its annotations, each with its end, and its own end. -/
def closed (n : FieldNode) : FieldNode where
  header := n.header
  annotations := n.annotations.map (·.closed)
  typeAnnotations := n.typeAnnotations.map fun a => { a with node := a.node.closed }
  attributes := n.attributes
  finished := true

@[simp]
theorem closed_closed (n : FieldNode) : n.closed.closed = n.closed := by
  simp [closed]

theorem Fits.closed {n : FieldNode} (h : n.Fits level) : n.closed.Fits level := by
  intro hlevel
  simp [FieldNode.closed, h hlevel]

theorem Recorded.fits {header : FieldHeader} {xs : List FieldVisitor.Exchange}
    {d : FieldVisitor.Session FieldNode} (h : Recorded level header xs d) : d.state.Fits level := by
  intro hlevel
  rw [h.state, ofExchanges, List.filterMap_eq_nil_iff]
  intro x hx
  have hallowed := h.allowed x hx
  obtain ⟨r, contents⟩ := x
  cases r with
  | annotateType => exact absurd ⟨rfl, hlevel⟩ hallowed
  | _ => rfl

/-- Everything is written down as it is sent. -/
theorem scribe_replay (hlevel : .asm5 ≤ level) (n : FieldNode) :
    (n.replay (scribe level)).Adds id n.messages := by
  have hannounced (r : FieldVisitor.Request) (a : AnnotationNode)
      (hr : ∀ log, ((scribe level).ask r).exec log = (.ok (some notes), log ++ [.field r])) :
      (do replayOnto a (← (scribe level).ask r)).Adds id (announced r a) := by
    intro log
    rw [id_eq, Run.exec_bind_of_ok (hr log)]
    have hnotes := a.notes_replay (log ++ [.field r])
    rw [List.append_assoc] at hnotes
    exact hnotes
  have htype (target : TypeTarget) (descriptor : String) (visible : Bool) (log : List Message) :
      ((scribe level).ask (.annotateType target descriptor visible)).exec log =
        (.ok (some notes), log ++ [.field (.annotateType target descriptor visible)]) := by
    have hallowed : ¬level < .asm5 := Nat.not_lt.2 hlevel
    simp only [FieldVisitor.ask, scribe, requireTypeAnnotations, Level.require, hallowed, if_false]
    rfl
  refine (Run.Adds.flatMap n.annotations fun a _ => ?_).append ?_
  · exact hannounced (.annotate a.descriptor a.visible) a fun _ => rfl
  refine (Run.Adds.flatMap n.typeAnnotations fun a _ => ?_).append ?_
  · exact hannounced _ a.node (htype a.target a.node.descriptor a.node.visible)
  exact (Run.Adds.flatMap n.attributes fun a _ log => rfl).append fun log => rfl

/-- The recorder records the field once more, with every end. -/
theorem exec_replay_recorder {n : FieldNode} (h : n.Fits level) :
    (n.replay (recorder level)).exec { header := n.header } = (.ok (), n.closed) := by
  obtain ⟨header, annotations, typeAnnotations, attributes, finished⟩ := n
  have hannotations : Run.Adds (fun annotations => { header, annotations })
      (annotations.forM fun a => do
        replayOnto a (← (recorder level).annotate a.descriptor a.visible))
      (annotations.map (·.closed)) := by
    refine Run.Adds.map annotations fun a _ as => ?_
    rw [Run.exec_bind_of_ok (exec_annotate level _ a.descriptor a.visible)]
    exact a.exec_replay_on_place (annotationAt_sits { header, annotations := as })
  have htypes (annotations : List AnnotationNode) :
      Run.Adds (fun typeAnnotations => { header, annotations, typeAnnotations })
        (typeAnnotations.forM fun a => do
          replayOnto a.node
            (← (recorder level).annotateType a.target a.node.descriptor a.node.visible))
        (typeAnnotations.map fun a => { a with node := a.node.closed }) := by
    refine Run.Adds.map typeAnnotations fun a ha as => ?_
    have hlevel : ¬level < .asm5 := fun hlevel => by
      rw [show typeAnnotations = [] from h hlevel] at ha
      exact List.not_mem_nil ha
    have hasked := exec_annotateType level { header, annotations, typeAnnotations := as } a.target
      a.node.descriptor a.node.visible
    rw [if_neg hlevel] at hasked
    rw [Run.exec_bind_of_ok hasked]
    exact a.node.exec_replay_on_place
      (typeAnnotationAt_sits { header, annotations, typeAnnotations := as } a.target)
  have hattributes (annotations : List AnnotationNode) (typeAnnotations : List TypeAnnotationNode) :
      Run.Adds (fun attributes => { header, annotations, typeAnnotations, attributes })
        (attributes.forM (recorder level).attach) (attributes.map id) :=
    Run.Adds.map attributes fun a _ as => rfl
  rw [List.map_id] at hattributes
  refine (Run.exec_bind_of_ok (hannotations [])).trans ?_
  refine (Run.exec_bind_of_ok (htypes _ [])).trans ?_
  exact Run.exec_bind_of_ok (hattributes _ _ [])

end FieldNode

end ClassUnit
