import ClassUnit.Proofs.Field.Replay

/-! # Visitors in their places

A recorder acts on a part of what is recorded around it: on one annotation of a field, on one field
of a class. In its place it does what it does alone (`FieldVisitor.hear_on`,
`FieldNode.exec_replay_on`). What it keeps there are lists, and these only grow (`Run.Adds`). -/

namespace ClassUnit

variable {ε σ τ ρ α β γ : Type}

/-! ## Parts in their places -/

/-- The part can be put anywhere into the greater state that `place` leaves open. -/
structure Part.Sits (part : Part τ σ) (place : σ → τ) : Prop where
  get_place : ∀ s, part.get (place s) = s
  put_place : ∀ s s', part.put s' (place s) = place s'

theorem Part.Sits.within {inner : Part σ ρ} {outer : Part τ σ} {f : ρ → σ} {g : σ → τ}
    (hinner : inner.Sits f) (houter : outer.Sits g) : (inner.within outer).Sits (g ∘ f) := by
  constructor
  · intro r
    change inner.get (outer.get (g (f r))) = r
    rw [houter.get_place, hinner.get_place]
  · intro r r'
    change outer.put (inner.put r' (outer.get (g (f r)))) (g (f r)) = g (f r')
    rw [houter.get_place, hinner.put_place, houter.put_place]

/-- The item that comes last. -/
theorem Part.item_sits [Inhabited σ] (before : List σ) :
    (Part.item before.length).Sits fun x => before ++ [x] := by
  constructor
  · intro x
    simp [item]
  · intro x x'
    simp [item]

theorem Run.exec_on_place {part : Part τ σ} {place : σ → τ} (h : part.Sits place)
    (x : Run ε σ α) (s : σ) : (x.on part).exec (place s) = ((x.exec s).1, place (x.exec s).2) := by
  rw [exec_on, h.get_place, h.put_place]

/-! ## Actions that add to the state -/

/-- The action is accepted, and the state holds so much more then. -/
def Run.Adds (state : List γ → σ) (x : Run ε σ Unit) (items : List γ) : Prop :=
  ∀ xs, x.exec (state xs) = (.ok (), state (xs ++ items))

namespace Run.Adds

variable {state : List γ → σ} {x y : Run ε σ Unit} {items items' : List γ}

theorem append (hx : Adds state x items) (hy : Adds state y items') :
    Adds state (do x; y) (items ++ items') := by
  intro xs
  rw [exec_bind_of_ok (hx xs), ← List.append_assoc]
  exact hy (xs ++ items)

theorem flatMap {f : β → Run ε σ Unit} {g : β → List γ} (list : List β)
    (h : ∀ b ∈ list, Adds state (f b) (g b)) : Adds state (list.forM f) (list.flatMap g) := by
  induction list with
  | nil =>
    intro xs
    rw [List.flatMap_nil, List.append_nil]
    rfl
  | cons b list ih =>
    rw [List.forM_eq_forM] at ih ⊢
    rw [List.forM_cons, List.flatMap_cons]
    exact (h b List.mem_cons_self).append (ih fun b' hb' => h b' (List.mem_cons_of_mem _ hb'))

/-- Where each item of a list adds one thing. -/
theorem map {f : β → Run ε σ Unit} {g : β → γ} (list : List β)
    (h : ∀ b ∈ list, Adds state (f b) [g b]) : Adds state (list.forM f) (list.map g) := by
  rw [List.map_eq_flatMap]
  exact flatMap list h

end Run.Adds

namespace FieldVisitor

/-- The session of a visitor that acts on a part, in its place. -/
def Session.placed (d : Session σ) (part : Part τ σ) (place : σ → τ) : Session τ :=
  ⟨place d.state, d.atHand.map (·.on part)⟩

section
variable {part : Part τ σ} {place : σ → τ} (h : part.Sits place) (v : FieldVisitor σ)
include h

theorem hear_on (d : Session σ) (m : Message) :
    (v.on part).hear (d.placed part place) m =
      ((v.hear d m).1, (v.hear d m).2.placed part place) := by
  cases m with
  | field r =>
    rw [hear_field, hear_field, ask_on, Session.placed, Run.exec_on_place h, Run.exec_map]
    rcases (v.ask r).exec d.state with ⟨_ | _, s⟩ <;>
      simp [Session.placed, Except.map, Except.toOption]
  | element r =>
    obtain ⟨s, _ | a⟩ := d
    · rfl
    · rw [hear_element_some, Session.placed, Option.map_some, hear_element_some,
        AnnotationVisitor.ask_on, Run.exec_on_place h]
      rfl

theorem send_on (d : Session σ) (ms : List Message) :
    send (v.on part).hear (d.placed part place) ms =
      ((send v.hear d ms).1, (send v.hear d ms).2.placed part place) := by
  induction ms generalizing d with
  | nil => rfl
  | cons m ms ih =>
    rw [send, send, hear_on h]
    rcases v.hear d m with ⟨_ | _ | _, d'⟩
    · exact ih d'
    · rfl
    · exact ih d'

end

end FieldVisitor

/-- A field is replayed onto a part as it would be onto the part alone. -/
theorem FieldNode.exec_replay_on {part : Part τ σ} {place : σ → τ} (h : part.Sits place)
    (n : FieldNode) (v : FieldVisitor σ) (s : σ) :
    (n.replay (v.on part)).exec (place s) =
      (((n.replay v).exec s).1, place ((n.replay v).exec s).2) := by
  have hplaced := n.sends_replay (v.on part) ((FieldVisitor.Session.start s).placed part place)
  rw [FieldVisitor.send_on h] at hplaced
  rw [n.sends_replay v (.start s)]
  exact hplaced

end ClassUnit
