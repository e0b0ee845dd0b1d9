import ClassUnit.Proofs.Field.Session

/-! # Nested lists of observers

A list of observers is a visitor itself and can stand in another list. However lists are nested,
they do what one list of the leaves does (`ObserverTree.nested_as_flat`).

What a list hands out for its observers depends on the grouping only in form. Two lists behind one
another hand out what both hand out together (`AnnotationVisitor.collapse_append`), so requests to
lists compose like the lists themselves (`FieldVisitor.gather_append`), and the rest is an induction
over the tree. -/

namespace ClassUnit

variable {σ : Type}

namespace AnnotationVisitor

/-- Visitors that do the same on every request are the same. -/
theorem ext_ask {a b : AnnotationVisitor σ} (h : ∀ r, a.ask r = b.ask r) : a = b := by
  obtain ⟨visit, finish⟩ := a
  obtain ⟨visit', finish'⟩ := b
  obtain rfl : visit = visit' := funext fun e => h (.visit e)
  obtain rfl : finish = finish' := h .finish
  rfl

theorem ask_fanOut (targets : List (AnnotationVisitor σ)) (r : Request) :
    (fanOut targets).ask r = targets.forM (·.ask r) := by
  cases r <;> rfl

/-- A single target cannot be told from the fan-out over it, so one visitor for several targets is
the fan-out in every case. -/
theorem collapse_eq_fanOut {targets : List (AnnotationVisitor σ)} (h : targets ≠ []) :
    collapse targets = some (fanOut targets) := by
  match targets, h with
  | [target], _ =>
    refine congrArg some (ext_ask fun r => ?_)
    rw [ask_fanOut, List.forM_eq_forM, List.forM_cons, List.forM_nil, bind_pure_unit]
  | _ :: _ :: _, _ => rfl

/-- Passes each call to `a`, and then to `b` if `a` accepts it. -/
def both (a b : AnnotationVisitor σ) : AnnotationVisitor σ where
  visit e := do a.visit e; b.visit e
  finish := do a.finish; b.finish

theorem ask_both (a b : AnnotationVisitor σ) (r : Request) :
    (both a b).ask r = (do a.ask r; b.ask r) := by
  cases r <;> rfl

theorem fanOut_append (as bs : List (AnnotationVisitor σ)) :
    fanOut (as ++ bs) = both (fanOut as) (fanOut bs) := by
  apply ext_ask
  intro r
  rw [ask_both, ask_fanOut, ask_fanOut, ask_fanOut]
  simp only [List.forM_eq_forM, List.forM_append]

/-- What two lists of targets have in common is one visitor for each of them, if there is any. -/
theorem collapse_append (as bs : List (AnnotationVisitor σ)) :
    collapse (as ++ bs) = Option.merge both (collapse as) (collapse bs) := by
  by_cases has : as = []
  · subst has
    rw [List.nil_append]
    cases h : collapse bs <;> rfl
  by_cases hbs : bs = []
  · subst hbs
    rw [List.append_nil]
    cases h : collapse as <;> rfl
  rw [collapse_eq_fanOut has, collapse_eq_fanOut hbs,
    collapse_eq_fanOut (List.append_ne_nil_of_left_ne_nil has bs), fanOut_append]
  rfl

end AnnotationVisitor

open AnnotationVisitor (both collapse collapse_append)

namespace FieldVisitor

/-- Asks all observers in order, and makes one visitor of all that they hand out. -/
def gather (list : List (FieldVisitor σ)) (r : Request) : Visit σ (Option (AnnotationVisitor σ)) :=
  (fun targets => collapse (targets.filterMap id)) <$> list.mapM (·.ask r)

theorem gather_append (list list' : List (FieldVisitor σ)) (r : Request) :
    gather (list ++ list') r = do
      let handed ← gather list r
      let handed' ← gather list' r
      return Option.merge both handed handed' := by
  simp [gather, collapse_append]

theorem gather_singleton (v : FieldVisitor σ) (r : Request) : gather [v] r = v.ask r := by
  have hhanded :
      (fun handed : Option (AnnotationVisitor σ) => collapse ([handed].filterMap id)) = id := by
    funext handed
    cases handed <;> rfl
  rw [gather, List.mapM_cons, List.mapM_nil]
  simp only [map_pure, bind_pure_comp, Functor.map_map, hhanded, id_map]

theorem gather_cons (v : FieldVisitor σ) (list : List (FieldVisitor σ)) (r : Request) :
    gather (v :: list) r = do
      let handed ← v.ask r
      let handed' ← gather list r
      return Option.merge both handed handed' := by
  rw [← List.singleton_append, gather_append, gather_singleton]

end FieldVisitor

open FieldVisitor (Message Request observers gather gather_singleton gather_append gather_cons)

/-- Lists of observers in each other, down to visitors that are no such lists. -/
inductive ObserverTree (σ : Type)
  | leaf (v : FieldVisitor σ)
  | list (level : Level) (branches : List (ObserverTree σ))

namespace ObserverTree

mutual

/-- The visitor that the tree is. -/
def visitor : ObserverTree σ → FieldVisitor σ
  | .leaf v => v
  | .list level branches => observers level (visitors branches)

def visitors : List (ObserverTree σ) → List (FieldVisitor σ)
  | [] => []
  | t :: ts => t.visitor :: visitors ts

end

mutual

/-- From left to right. -/
def leaves : ObserverTree σ → List (FieldVisitor σ)
  | .leaf v => [v]
  | .list _ branches => allLeaves branches

def allLeaves : List (ObserverTree σ) → List (FieldVisitor σ)
  | [] => []
  | t :: ts => t.leaves ++ allLeaves ts

end

mutual

/-- The levels of all lists in the tree. -/
def levels : ObserverTree σ → List Level
  | .leaf _ => []
  | .list level branches => level :: allLevels branches

def allLevels : List (ObserverTree σ) → List Level
  | [] => []
  | t :: ts => t.levels ++ allLevels ts

end

mutual

/-- A request that no list bars is put to the leaves, one after the other. -/
theorem ask_visitor (r : Request) : ∀ t : ObserverTree σ,
    (∀ level ∈ t.levels, ¬r.Barred level) → t.visitor.ask r = gather t.leaves r
  | .leaf v, _ => (gather_singleton v r).symm
  | .list level branches, h => by
    obtain ⟨hlevel, hbranches⟩ := List.forall_mem_cons.1 h
    rw [visitor, FieldVisitor.ask_observers, if_neg hlevel, leaves]
    exact gather_visitors r branches hbranches

theorem gather_visitors (r : Request) : ∀ ts : List (ObserverTree σ),
    (∀ level ∈ allLevels ts, ¬r.Barred level) → gather (visitors ts) r = gather (allLeaves ts) r
  | [], _ => rfl
  | t :: ts, h => by
    obtain ⟨ht, hts⟩ := List.forall_mem_append.1 h
    rw [visitors, allLeaves, gather_cons, gather_append, ask_visitor r t ht, gather_visitors r ts hts]

end

/-- Where no list is below the level of type annotations, or none is visited, no list bars any of
the messages. -/
theorem not_barred {ms : List Message} {levels : List Level}
    (h : (∃ r, Message.field r ∈ ms ∧ r.call = .annotateType) → ∀ l ∈ levels, .asm5 ≤ l)
    {r : Request} (hr : Message.field r ∈ ms) : ∀ l ∈ levels, ¬r.Barred l := by
  rintro l hl ⟨hcall, hlow⟩
  exact absurd hlow (Nat.not_lt.2 (h ⟨r, hr, hcall⟩ l hl))

/-- Nested lists answer every message as one list of all the leaves does, and leave the leaves and
the annotation visitor at hand like that. Type annotations are no exception unless some list is
below their level. And the one visitor that a list hands out is the fan-out over all targets. -/
theorem nested_as_flat (t : ObserverTree σ) (level : Level) (s : σ) (ms : List Message)
    (h : (∃ r, Message.field r ∈ ms ∧ r.call = .annotateType) →
      ∀ l ∈ level :: t.levels, .asm5 ≤ l) :
    (t.visitor.answers (.start s) ms = (observers level t.leaves).answers (.start s) ms ∧
      t.visitor.after (.start s) ms = (observers level t.leaves).after (.start s) ms) ∧
    ∀ targets : List (AnnotationVisitor σ),
      collapse targets = if targets = [] then none else some (AnnotationVisitor.fanOut targets) := by
  constructor
  · apply FieldVisitor.drive_congr_of_mem
    intro r hr
    obtain ⟨hlevel, hlevels⟩ := List.forall_mem_cons.1 (not_barred h hr)
    rw [ask_visitor r t hlevels, FieldVisitor.ask_observers, if_neg hlevel]
    rfl
  · intro targets
    split
    · next hnil => rw [hnil]; rfl
    · next hne => exact AnnotationVisitor.collapse_eq_fanOut hne

/-- Signs with its number for all that it is sent, and refuses attributes when ten have signed. -/
def signing (i : Nat) : FieldVisitor (List Nat) where
  level := .asm7
  annotate _ _ := do
    modify (· ++ [i])
    return some { visit := fun _ => modify (· ++ [i]), finish := modify (· ++ [i]) }
  annotateType _ _ _ := do
    modify (· ++ [i])
    return none
  attach _ := do
    if (← get).length = 10 then throw (.visitOrder (.refused "full"))
    modify (· ++ [i])
  finish := modify (· ++ [i])

/-- Three leaves and an empty list, at different depths. -/
def nested : ObserverTree (List Nat) :=
  .list .asm6 [.list .asm5 [], .list .asm7 [.list .asm5 [.leaf (signing 1)], .leaf (signing 2)],
    .leaf (signing 3)]

theorem nested_as_flat_signed :
    let ms : List Message :=
      [.field (.annotateType ⟨⟨0⟩, none⟩ "LMark;" true), .field (.annotate "LMark;" true),
        .element (.visit ⟨none, .int 7⟩), .field (.attach ⟨"Slot", []⟩)]
    (∀ l ∈ .asm5 :: nested.levels, .asm5 ≤ l) ∧
      nested.visitor.answers (.start []) ms =
        (observers .asm5 nested.leaves).answers (.start []) ms ∧
      nested.visitor.answers (.start []) ms =
        [some (.ok false), some (.ok true), some (.ok false),
          some (.error (.visitOrder (.refused "full")))] ∧
      ((observers .asm5 nested.leaves).after (.start []) ms).state =
        [1, 2, 3, 1, 2, 3, 1, 2, 3, 1] := by
  intro ms
  have hlevels : ∀ l ∈ .asm5 :: nested.levels, Level.asm5 ≤ l := by decide
  obtain ⟨⟨hanswers, -⟩, -⟩ := nested_as_flat nested .asm5 [] ms fun _ => hlevels
  exact ⟨hlevels, hanswers, rfl, rfl⟩

end ObserverTree

end ClassUnit
