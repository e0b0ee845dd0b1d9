import ClassUnit.Field.Node
import ClassUnit.Proofs.Field.Session

/-! # Replays

A recorded field is replayed by sending messages, always the same ones, up to the first that is
refused (`FieldNode.sends_replay`). What was handed out for an annotation takes the elements and the
end of it; where nothing was handed out these messages reach nobody. -/

namespace ClassUnit

variable {ε σ τ δ μ α β : Type}

/-! ## Sending messages -/

/-- Sends messages one after another, up to the first that is refused. -/
def send (hear : δ → μ → Option (Except ε α) × δ) : δ → List μ → Except ε Unit × δ
  | d, [] => (.ok (), d)
  | d, m :: ms =>
    match hear d m with
    | (some (.error e), d') => (.error e, d')
    | (_, d') => send hear d' ms

section
variable {hear : δ → μ → Option (Except ε α) × δ} {d d' : δ} {m : μ} {ms ms' : List μ}

theorem send_cons_of_error {e : ε} (h : hear d m = (some (.error e), d')) :
    send hear d (m :: ms) = (.error e, d') := by
  rw [send, h]

theorem send_cons_of_ok {a : α} (h : hear d m = (some (.ok a), d')) :
    send hear d (m :: ms) = send hear d' ms := by
  rw [send, h]

theorem send_cons_of_none (h : hear d m = (none, d')) :
    send hear d (m :: ms) = send hear d' ms := by
  rw [send, h]

theorem send_append_of_ok (h : send hear d ms = (.ok (), d')) :
    send hear d (ms ++ ms') = send hear d' ms' := by
  induction ms generalizing d with
  | nil =>
    cases h
    rfl
  | cons m ms ih =>
    rw [List.cons_append, send]
    rw [send] at h
    rcases hm : hear d m with ⟨_ | _ | _, d''⟩ <;> simp only [hm] at h ⊢
    · exact ih h
    · cases h
    · exact ih h

theorem send_append_of_error {e : ε} (h : send hear d ms = (.error e, d')) :
    send hear d (ms ++ ms') = (.error e, d') := by
  induction ms generalizing d with
  | nil => cases h
  | cons m ms ih =>
    rw [List.cons_append, send]
    rw [send] at h
    rcases hm : hear d m with ⟨_ | _ | _, d''⟩ <;> simp only [hm] at h ⊢
    · exact ih h
    · exact h
    · exact ih h

end

/-- The action comes to the same as sending the messages, whatever the session is. -/
def Sends (hear : δ → μ → Option (Except ε α) × δ) (state : δ → σ) (x : Run ε σ Unit)
    (ms : List μ) : Prop :=
  ∀ d, x.exec (state d) = ((send hear d ms).1, state (send hear d ms).2)

namespace Sends

variable {hear : δ → μ → Option (Except ε α) × δ} {state : δ → σ} {x y : Run ε σ Unit}
  {ms ms' : List μ}

theorem nil : Sends hear state (pure ()) [] := fun _ => rfl

theorem append (hx : Sends hear state x ms) (hy : Sends hear state y ms') :
    Sends hear state (do x; y) (ms ++ ms') := by
  intro d
  rw [Run.exec_bind, hx d]
  rcases hsend : send hear d ms with ⟨_ | _, d'⟩
  · rw [send_append_of_error hsend]
  · rw [send_append_of_ok hsend]
    exact hy d'

theorem flatMap {f : β → Run ε σ Unit} {g : β → List μ} (h : ∀ b, Sends hear state (f b) (g b))
    (list : List β) : Sends hear state (list.forM f) (list.flatMap g) := by
  induction list with
  | nil => exact nil
  | cons b list ih =>
    rw [List.forM_eq_forM] at ih ⊢
    rw [List.forM_cons, List.flatMap_cons]
    exact (h b).append ih

end Sends

/-! ## The messages of a recorded field -/

open FieldVisitor (Message Session)

namespace AnnotationVisitor

variable (v : FieldVisitor σ) (a : AnnotationVisitor σ)

/-- Requests to an annotation visitor are messages while it is at hand. -/
theorem exec_requests (rs : List Request) (s : σ) :
    (rs.forM a.ask).exec s =
      ((send v.hear ⟨s, some a⟩ (rs.map .element)).1,
        (send v.hear ⟨s, some a⟩ (rs.map .element)).2.state) := by
  induction rs generalizing s with
  | nil => rfl
  | cons r rs ih =>
    rw [List.forM_eq_forM] at ih ⊢
    rw [List.forM_cons, List.map_cons, Run.exec_bind]
    have hear := FieldVisitor.hear_element_some v s a r
    rcases h : (a.ask r).exec s with ⟨_ | _, s'⟩ <;> rw [h] at hear
    · rw [send_cons_of_error hear]
    · rw [send_cons_of_ok hear]
      exact ih s'

/-- Where no annotation visitor is at hand, nobody is sent anything. -/
theorem send_of_none (rs : List Request) (s : σ) :
    send v.hear ⟨s, none⟩ (rs.map .element) = (.ok (), ⟨s, none⟩) := by
  induction rs with
  | nil => rfl
  | cons r rs ih =>
    rw [List.map_cons, send_cons_of_none (FieldVisitor.hear_element_none v s r)]
    exact ih

end AnnotationVisitor

namespace AnnotationNode

/-- What the visitor of an annotation is asked for: each element, and then the end. -/
def requests (n : AnnotationNode) : List AnnotationVisitor.Request :=
  n.elements.map .visit ++ [.finish]

theorem replay_eq (n : AnnotationNode) (a : AnnotationVisitor σ) :
    n.replay a = n.requests.forM a.ask := by
  simp only [replay, requests, List.forM_eq_forM, List.forM_append, List.forM_map]
  simp [AnnotationVisitor.ask]

end AnnotationNode

namespace FieldNode

/-- A request for an annotation, and the messages to the visitor that is handed out for it. -/
def announced (r : FieldVisitor.Request) (n : AnnotationNode) : List Message :=
  .field r :: n.requests.map .element

/-- The messages that a recorded field is replayed by. -/
def messages (n : FieldNode) : List Message :=
  n.annotations.flatMap (fun a => announced (.annotate a.descriptor a.visible) a) ++
    (n.typeAnnotations.flatMap (fun a =>
        announced (.annotateType a.target a.node.descriptor a.node.visible) a.node) ++
      (n.attributes.flatMap (fun a => [.field (.attach a)]) ++ [.field .finish]))

variable (v : FieldVisitor σ)

theorem sends_announced (r : FieldVisitor.Request) (n : AnnotationNode) :
    Sends v.hear Session.state (do replayOnto n (← v.ask r)) (announced r n) := by
  intro d
  rw [announced, Run.exec_bind]
  have hear := FieldVisitor.hear_field v d r
  rcases h : (v.ask r).exec d.state with ⟨_ | _ | a, s⟩ <;> rw [h] at hear
  · rw [send_cons_of_error hear]
  · rw [send_cons_of_ok hear]
    have hnobody := AnnotationVisitor.send_of_none v n.requests s
    change (Except.ok (), s) = _
    exact (congrArg (fun x => (x.1, x.2.state)) hnobody).symm
  · rw [send_cons_of_ok hear]
    change (n.replay a).exec s = _
    rw [n.replay_eq a]
    exact AnnotationVisitor.exec_requests v a n.requests s

/-- A call that hands nothing out is one message. -/
theorem sends_request (r : FieldVisitor.Request) (x : Visit σ Unit)
    (hx : v.ask r = (fun _ => none) <$> x) : Sends v.hear Session.state x [.field r] := by
  intro d
  have hear := FieldVisitor.hear_field v d r
  rw [hx, Run.exec_map] at hear
  rcases h : x.exec d.state with ⟨_ | _, s⟩ <;> rw [h] at hear
  · rw [send_cons_of_error hear]
  · rw [send_cons_of_ok hear]
    rfl

/-- A recorded field is replayed by sending its messages. -/
theorem sends_replay (n : FieldNode) : Sends v.hear Session.state (n.replay v) n.messages := by
  have hannotation (a : AnnotationNode) :=
    sends_announced v (.annotate a.descriptor a.visible) a
  have htype (a : TypeAnnotationNode) :=
    sends_announced v (.annotateType a.target a.node.descriptor a.node.visible) a.node
  have hattribute (a : Attribute) := sends_request v (.attach a) (v.attach a) rfl
  refine (Sends.flatMap hannotation n.annotations).append ?_
  refine (Sends.flatMap htype n.typeAnnotations).append ?_
  exact (Sends.flatMap hattribute n.attributes).append (sends_request v .finish v.finish rfl)

end FieldNode

end ClassUnit
