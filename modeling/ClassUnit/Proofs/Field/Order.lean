import ClassUnit.Proofs.Field.Session

/-! # Guarded visits

A guard passes every message on until the visitor behind it has accepted an end, and from then on
refuses every request to the field without passing it on (`ordered_drive`). An end that is refused
changes nothing, so the visit goes on. -/

namespace ClassUnit.FieldVisitor

variable {σ α : Type} {v : FieldVisitor σ} {d : Session σ} {m : Message} {ms : List Message}

/-! ## One request -/

/-- The phase of an open visit after a request with this result. -/
def Request.phase (r : Request) (result : Except Error α) : Phase :=
  if r = .finish ∧ result.isOk then .ended else .members

theorem exec_ask_ordered_members (v : FieldVisitor σ) (s : σ) (r : Request) :
    (v.ordered.ask r).exec (.members, s) =
      (((v.ask r).exec s).1.map (Option.map (·.on besidePhase)),
        r.phase ((v.ask r).exec s).1, ((v.ask r).exec s).2) := by
  have hasked : ((v.on besidePhase).ask r).exec (.members, s) =
      (((v.ask r).exec s).1.map (Option.map (·.on besidePhase)), .members, ((v.ask r).exec s).2) := by
    simp [besidePhase]
  cases r with
  | annotate | annotateType | attach => exact hasked
  | finish =>
    have hfinish : (v.ordered.ask .finish).exec (.members, s) =
        ((fun _ => none) <$> do
          v.finish.on besidePhase
          modify fun t => (Phase.ended, t.2) : Visit (Phase × σ) _).exec (.members, s) := rfl
    rw [hfinish, Run.exec_map, Run.exec_bind]
    simp only [ask, Run.exec_map, Run.exec_on, besidePhase]
    rcases v.finish.exec s with ⟨_ | _, s'⟩ <;> rfl

theorem exec_ask_ordered_ended (v : FieldVisitor σ) (s : σ) (r : Request) :
    (v.ordered.ask r).exec (.ended, s) =
      (.error (.visitOrder (.afterFinish r.call)), .ended, s) := by
  cases r <;> rfl

/-! ## One message -/

/-- The visitor accepts the message, and it is the end of the field. -/
def Closes (v : FieldVisitor σ) (d : Session σ) (m : Message) : Prop :=
  m = .field .finish ∧ ∃ handsOut, (v.hear d m).1 = some (.ok handsOut)

/-- The same session behind a guard. -/
def Session.guarded (d : Session σ) (phase : Phase) : Session (Phase × σ) :=
  ⟨(phase, d.state), d.atHand.map (·.on besidePhase)⟩

/-- What comes of a message that is sent after the end. -/
def Message.late : Message → Option Answer
  | .field r => some (.error (.visitOrder (.afterFinish r.call)))
  | .element _ => none

theorem hear_ordered_members (v : FieldVisitor σ) (d : Session σ) (m : Message) :
    ∃ phase, v.ordered.hear (d.guarded .members) m =
        ((v.hear d m).1, (v.hear d m).2.guarded phase) ∧ (phase = .ended ↔ v.Closes d m) := by
  cases m with
  | field r =>
    refine ⟨r.phase ((v.ask r).exec d.state).1, ?_, ?_⟩
    · rcases h : (v.ask r).exec d.state with ⟨_ | _, s⟩ <;>
        simp [hear, Session.guarded, exec_ask_ordered_members, h, Except.map, Except.toOption]
    · rcases h : (v.ask r).exec d.state with ⟨_ | _, s⟩ <;>
        simp [Closes, hear, Request.phase, h, Except.map, Except.isOk, Except.toBool]
  | element r =>
    refine ⟨.members, ?_, by simp [Closes]⟩
    rcases d with ⟨s, _ | a⟩
    · rfl
    · simp [hear, Session.guarded, besidePhase]

theorem hear_ordered_ended (v : FieldVisitor σ) (s : σ) (m : Message) :
    v.ordered.hear (.start (.ended, s)) m = (m.late, .start (.ended, s)) := by
  cases m with
  | field r =>
    simp only [hear, exec_ask_ordered_ended]
    rfl
  | element r => rfl

/-- An end is answered without an annotation visitor. -/
theorem hear_finish_atHand : (v.hear d (.field .finish)).2.atHand = none := by
  simp only [hear, ask, Run.exec_map]
  rcases v.finish.exec d.state with ⟨_ | _, s⟩ <;> rfl

/-- The end that is accepted closes the guard. -/
theorem hear_ordered_closes (h : v.Closes d m) :
    v.ordered.hear (d.guarded .members) m =
      ((v.hear d m).1, .start (.ended, (v.hear d m).2.state)) := by
  obtain ⟨phase, hhear, hphase⟩ := hear_ordered_members v d m
  obtain ⟨rfl, -⟩ := id h
  rw [hhear, hphase.2 h, Session.guarded, hear_finish_atHand]
  rfl

theorem hear_ordered_of_not_closes (h : ¬v.Closes d m) :
    v.ordered.hear (d.guarded .members) m = ((v.hear d m).1, (v.hear d m).2.guarded .members) := by
  obtain ⟨phase, hhear, hphase⟩ := hear_ordered_members v d m
  cases phase with
  | members => exact hhear
  | ended => exact absurd (hphase.1 rfl) h

/-! ## Whole visits -/

/-- The visitor accepts some end that the messages hold. -/
def HasEnded (v : FieldVisitor σ) (d : Session σ) (ms : List Message) : Prop :=
  ∃ before m after, ms = before ++ m :: after ∧ v.Closes (v.after d before) m

theorem not_hasEnded_nil : ¬v.HasEnded d [] := by
  rintro ⟨before, m, after, h, -⟩
  simp at h

theorem hasEnded_cons :
    v.HasEnded d (m :: ms) ↔ v.Closes d m ∨ v.HasEnded (v.hear d m).2 ms := by
  constructor
  · rintro ⟨_ | ⟨m', before⟩, m, after, h, hcloses⟩ <;> cases h
    · exact .inl hcloses
    · exact .inr ⟨before, m, after, rfl, hcloses⟩
  · rintro (hcloses | ⟨before, m', after, rfl, hcloses⟩)
    · exact ⟨[], m, ms, rfl, hcloses⟩
    · exact ⟨m :: before, m', after, rfl, hcloses⟩

/-- The first end that is accepted. -/
theorem HasEnded.first (h : v.HasEnded d ms) :
    ∃ before after, ms = before ++ .field .finish :: after ∧ ¬v.HasEnded d before ∧
      v.Closes (v.after d before) (.field .finish) := by
  induction ms generalizing d with
  | nil => exact absurd h not_hasEnded_nil
  | cons m ms ih =>
    by_cases hm : v.Closes d m
    · obtain ⟨rfl, -⟩ := id hm
      exact ⟨[], ms, rfl, not_hasEnded_nil, hm⟩
    · obtain ⟨before, after, rfl, hbefore, hcloses⟩ := ih ((hasEnded_cons.1 h).resolve_left hm)
      refine ⟨m :: before, after, rfl, fun h => ?_, hcloses⟩
      exact (hasEnded_cons.1 h).elim hm hbefore

/-- While no end has been accepted, a guard is not noticed. -/
theorem ordered_drive_open (h : ¬v.HasEnded d ms) :
    v.ordered.answers (d.guarded .members) ms = v.answers d ms ∧
      v.ordered.after (d.guarded .members) ms = (v.after d ms).guarded .members := by
  induction ms generalizing d with
  | nil => exact ⟨rfl, rfl⟩
  | cons m ms ih =>
    rw [hasEnded_cons, not_or] at h
    obtain ⟨hanswers, hafter⟩ := ih h.2
    rw [answers_cons, after_cons, hear_ordered_of_not_closes h.1]
    exact ⟨congrArg _ hanswers, hafter⟩

/-- After the end nothing is passed on. -/
theorem ordered_drive_ended (v : FieldVisitor σ) (s : σ) (ms : List Message) :
    v.ordered.answers (.start (.ended, s)) ms = ms.map Message.late ∧
      v.ordered.after (.start (.ended, s)) ms = .start (.ended, s) := by
  induction ms with
  | nil => exact ⟨rfl, rfl⟩
  | cons m ms ih =>
    rw [answers_cons, after_cons, hear_ordered_ended]
    exact ⟨congrArg _ ih.1, ih.2⟩

theorem hasEnded_ordered_iff :
    v.ordered.HasEnded (d.guarded .members) ms ↔ v.HasEnded d ms := by
  have hcloses (d : Session σ) (m : Message) :
      v.ordered.Closes (d.guarded .members) m ↔ v.Closes d m := by
    obtain ⟨phase, hhear, -⟩ := hear_ordered_members v d m
    rw [Closes, Closes, hhear]
  induction ms generalizing d with
  | nil => exact iff_of_false not_hasEnded_nil not_hasEnded_nil
  | cons m ms ih =>
    rw [hasEnded_cons, hasEnded_cons, hcloses]
    by_cases hm : v.Closes d m
    · simp only [hm, true_or]
    · rw [hear_ordered_of_not_closes hm]
      exact or_congr_right ih

/-- Up to the first end that the visitor accepts, a guard answers as the visitor alone would and
leaves it as it would be left. Every later request to the field is refused as one after the end,
whatever the level of the visitor, which is not touched again. The guard has come to its end once
it has accepted one. -/
theorem ordered_drive (v : FieldVisitor σ) (s : σ) (ms : List Message) :
    (¬v.HasEnded (.start s) ms ∧
        v.ordered.answers (.start (.members, s)) ms = v.answers (.start s) ms ∧
        v.ordered.after (.start (.members, s)) ms = (v.after (.start s) ms).guarded .members ∨
      ∃ before after, ms = before ++ .field .finish :: after ∧
        ¬v.HasEnded (.start s) before ∧ v.Closes (v.after (.start s) before) (.field .finish) ∧
        v.ordered.answers (.start (.members, s)) ms =
          v.answers (.start s) (before ++ [.field .finish]) ++ after.map Message.late ∧
        v.ordered.after (.start (.members, s)) ms =
          .start (.ended, (v.after (.start s) (before ++ [.field .finish])).state)) ∧
    ((v.ordered.after (.start (.members, s)) ms).state.1 = .ended ↔
      v.ordered.HasEnded (.start (.members, s)) ms) := by
  have hstart : Session.start (Phase.members, s) = (Session.start s).guarded .members := rfl
  rw [hstart, hasEnded_ordered_iff]
  by_cases hended : v.HasEnded (.start s) ms
  · obtain ⟨before, after, rfl, hbefore, hcloses⟩ := hended.first
    obtain ⟨hanswers, hafter⟩ := ordered_drive_open hbefore
    obtain ⟨hlate, hleft⟩ :=
      ordered_drive_ended v (v.after (.start s) (before ++ [.field .finish])).state after
    rw [after_append, after_cons, after_nil] at hlate hleft
    -- The guard closes on the message between the two parts.
    have hsplit : v.ordered.after ((Session.start s).guarded .members)
        (before ++ .field .finish :: after) =
          .start (.ended, (v.after (.start s) (before ++ [.field .finish])).state) := by
      rw [after_append, hafter, after_cons, hear_ordered_closes hcloses, hleft]
      rw [after_append, after_cons, after_nil]
    refine ⟨.inr ⟨before, after, rfl, hbefore, hcloses, ?_, hsplit⟩, ?_⟩
    · rw [answers_append, answers_append, hanswers, hafter, answers_cons, answers_cons, answers_nil,
        hear_ordered_closes hcloses, hlate, List.append_assoc, List.singleton_append]
    · exact iff_of_true (by rw [hsplit]) hended
  · obtain ⟨hanswers, hafter⟩ := ordered_drive_open hended
    exact ⟨.inl ⟨hended, hanswers, hafter⟩, iff_of_false (by rw [hafter]; nofun) hended⟩

end ClassUnit.FieldVisitor
