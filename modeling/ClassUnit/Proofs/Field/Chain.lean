import ClassUnit.Proofs.Field.Session

/-! # Chains of links

A chain of links cannot be told from the visitor at its end, except that the lowest level among the
links decides on type annotations (`chain_transparent`). A barred type annotation is refused at some
link and gets no further, and the chain goes on as before. -/

namespace ClassUnit

variable {σ : Type}

namespace FieldVisitor

/-- Refuses type annotations before the visitor hears of them, and leaves the rest to it. -/
def barringTypes (v : FieldVisitor σ) : FieldVisitor σ where
  level := v.level
  annotate := v.annotate
  annotateType _ _ _ := .of (.error barred)
  attach := v.attach
  finish := v.finish

theorem ask_barringTypes (v : FieldVisitor σ) (r : Request) :
    v.barringTypes.ask r = if r.call = .annotateType then .of (.error barred) else v.ask r := by
  cases r <;> rfl

/-- Visitors that do the same on every request are driven alike. -/
theorem drive_congr {v w : FieldVisitor σ} (h : ∀ r, v.ask r = w.ask r) (d : Session σ)
    (ms : List Message) : v.answers d ms = w.answers d ms ∧ v.after d ms = w.after d ms :=
  drive_congr_of_mem (fun r _ => h r) d

end FieldVisitor

namespace FieldLink
open FieldVisitor

/-- The head of a chain of links with these levels, outermost first. -/
def chain (levels : List Level) (last : FieldVisitor σ) : FieldVisitor σ :=
  levels.foldr (fun level next => FieldLink.visitor ⟨level, some next⟩) last

theorem ask_chain (levels : List Level) (last : FieldVisitor σ) (r : Request) :
    (chain levels last).ask r =
      if ∃ level ∈ levels, r.Barred level then .of (.error barred) else last.ask r := by
  induction levels with
  | nil => simp [chain]
  | cons level levels ih =>
    change (FieldLink.visitor ⟨level, some (chain levels last)⟩).ask r = _
    rw [ask_link, ih]
    by_cases h : r.Barred level <;> simp [h]

/-- The lowest level of a chain decides for all of it. -/
theorem ask_chain_eq (levels : List Level) (last : FieldVisitor σ) (r : Request) :
    (chain levels last).ask r =
      (if ∃ level ∈ levels, level < .asm5 then last.barringTypes else last).ask r := by
  rw [ask_chain]
  by_cases hlow : ∃ level ∈ levels, level < .asm5
  · rw [if_pos hlow, ask_barringTypes]
    obtain ⟨level, hlevel, hlt⟩ := hlow
    have hbarred : (∃ level ∈ levels, r.Barred level) ↔ r.call = .annotateType :=
      ⟨fun ⟨_, _, hr⟩ => hr.1, fun hr => ⟨level, hlevel, hr, hlt⟩⟩
    simp only [hbarred]
  · rw [if_neg hlow, if_neg fun ⟨level, hlevel, hr⟩ => hlow ⟨level, hlevel, hr.2⟩]

/-! ## Chains that lead nowhere -/

/-- A link with no visitor behind it. -/
def deadEnd (level : Level) : FieldVisitor σ := FieldLink.visitor ⟨level, none⟩

theorem ask_deadEnd (level : Level) (r : Request) :
    (deadEnd level : FieldVisitor σ).ask r =
      if r.Barred level then .of (.error barred) else pure none := by
  cases r with
  | annotateType target descriptor visible => exact requireTypeAnnotations_bind level _ rfl _
  | _ => rfl

/-- What comes of a message where nobody listens. -/
def unheard (levels : List Level) : Message → Option Answer
  | .field r => some (if ∃ level ∈ levels, r.Barred level then .error barred else .ok false)
  | .element _ => none

theorem hear_chain_deadEnd (levels : List Level) (level : Level) (s : σ) (m : Message) :
    (chain levels (deadEnd level)).hear (.start s) m = (unheard (levels ++ [level]) m, .start s) := by
  cases m with
  | element r => rfl
  | field r =>
    have hask : (chain levels (deadEnd level)).ask r =
        if ∃ l ∈ levels ++ [level], r.Barred l then .of (.error barred)
        else (pure none : Visit σ _) := by
      rw [ask_chain, ask_deadEnd]
      by_cases h : r.Barred level <;> simp [h]
    simp only [hear, hask, unheard]
    split <;> rfl

theorem drive_chain_deadEnd (levels : List Level) (level : Level) (s : σ) (ms : List Message) :
    (chain levels (deadEnd level)).answers (.start s) ms = ms.map (unheard (levels ++ [level])) ∧
      (chain levels (deadEnd level)).after (.start s) ms = .start s := by
  induction ms with
  | nil => exact ⟨rfl, rfl⟩
  | cons m ms ih =>
    rw [answers_cons, after_cons, hear_chain_deadEnd]
    exact ⟨congrArg _ ih.1, ih.2⟩

/-- A chain answers and leaves the visitor at its end as if that were driven alone, and hands out
the same annotation visitors, except that any link below the level of type annotations bars them
for the whole chain. A chain that leads nowhere accepts all the rest and hands out nothing. -/
theorem chain_transparent (levels : List Level) (last : FieldVisitor σ) (s : σ)
    (ms : List Message) :
    ((chain levels last).answers (.start s) ms =
        (if ∃ level ∈ levels, level < .asm5 then last.barringTypes else last).answers (.start s) ms ∧
      (chain levels last).after (.start s) ms =
        (if ∃ level ∈ levels, level < .asm5 then last.barringTypes else last).after (.start s) ms) ∧
    ∀ level,
      (chain levels (deadEnd level)).answers (.start s) ms = ms.map (unheard (levels ++ [level])) ∧
        (chain levels (deadEnd level)).after (.start s) ms = .start s :=
  ⟨drive_congr (ask_chain_eq levels last) _ ms, fun level => drive_chain_deadEnd levels level s ms⟩

end FieldLink

end ClassUnit
