import ClassUnit.Field.Visitor

/-! # Sessions with a field visitor

Whoever drives a field visitor sends it messages one after another. A message goes to the field, or
to the annotation visitor at hand, which is the one that the last message to the field was answered
with. So an annotation visitor is out of reach as soon as the field visitor has gone on.
`FieldVisitor.answers` and `FieldVisitor.after` say what a visitor answers to a sequence of
messages and how it is left.

A request to the field can be stated once for all four of them (`FieldVisitor.ask`). What links,
guards and lists of observers make of a request is then one equation each. -/

namespace ClassUnit

variable {ε σ τ ρ α β : Type}

/-! ## Actions step by step -/

namespace Run

theorem ext {x y : Run ε σ α} (h : ∀ s, x.exec s = y.exec s) : x = y := funext h

@[simp]
theorem exec_pure (a : α) (s : σ) : (pure a : Run ε σ α).exec s = (.ok a, s) := rfl

@[simp]
theorem exec_of (result : Except ε α) (s : σ) : (of result : Run ε σ α).exec s = (result, s) := rfl

theorem exec_bind (x : Run ε σ α) (f : α → Run ε σ β) (s : σ) :
    (x >>= f).exec s =
      match x.exec s with
      | (.ok a, s') => (f a).exec s'
      | (.error e, s') => (.error e, s') := by
  change (ExceptT.bindCont f (x.exec s).1 : StateM σ _) (x.exec s).2 = _
  rcases x.exec s with ⟨_ | _, _⟩ <;> rfl

theorem exec_bind_of_ok {x : Run ε σ α} {f : α → Run ε σ β} {s s' : σ} {a : α}
    (h : x.exec s = (.ok a, s')) : (x >>= f).exec s = (f a).exec s' := by
  rw [exec_bind, h]

/-- A failure ends an action, with the state that it leaves. -/
theorem exec_bind_of_error {x : Run ε σ α} {f : α → Run ε σ β} {s s' : σ} {e : ε}
    (h : x.exec s = (.error e, s')) : (x >>= f).exec s = (.error e, s') := by
  rw [exec_bind, h]

@[simp]
theorem exec_map (f : α → β) (x : Run ε σ α) (s : σ) :
    (f <$> x).exec s = ((x.exec s).1.map f, (x.exec s).2) := by
  rw [map_eq_pure_bind, exec_bind]
  rcases x.exec s with ⟨_ | _, _⟩ <;> rfl

@[simp]
theorem exec_on (part : Part τ σ) (x : Run ε σ α) (t : τ) :
    (x.on part).exec t = ((x.exec (part.get t)).1, part.put (x.exec (part.get t)).2 t) := rfl

@[simp]
theorem exec_withOwn (start : ρ) (x : Run ε (ρ × σ) α) (s : σ) :
    (x.withOwn start).exec s = ((x.exec (start, s)).1, (x.exec (start, s)).2.2) := rfl

theorem map_on (f : α → β) (part : Part τ σ) (x : Run ε σ α) :
    f <$> x.on part = (f <$> x).on part :=
  ext fun t => by simp

end Run

theorem forM_eq_map_mapM (list : List α) (f : α → Run ε σ Unit) :
    list.forM f = (fun _ => ()) <$> list.mapM f := by
  induction list with
  | nil => simp
  | cons a list ih =>
    rw [List.forM_eq_forM] at ih
    simp [ih]

/-- What is filtered out is passed over. -/
theorem forM_filterMap (list : List β) (g : β → Option α) (f : α → Run ε σ Unit) :
    (list.filterMap g).forM f = list.forM fun b => (g b).elim (pure ()) f := by
  induction list with
  | nil => rfl
  | cons b list ih =>
    rw [List.forM_eq_forM, List.forM_eq_forM] at ih
    rcases h : g b with _ | a <;> simp [h, ih]

/-! ## Requests -/

/-- What an annotation visitor can be asked for. -/
inductive AnnotationVisitor.Request
  | visit (e : Element)
  | finish

/-- What a field visitor can be asked for. -/
inductive FieldVisitor.Request
  | annotate (descriptor : String) (visible : Bool)
  | annotateType (target : TypeTarget) (descriptor : String) (visible : Bool)
  | attach (a : Attribute)
  | finish
  deriving DecidableEq

def FieldVisitor.Request.call : Request → FieldCall
  | .annotate .. => .annotate
  | .annotateType .. => .annotateType
  | .attach _ => .attach
  | .finish => .finish

namespace AnnotationVisitor

def ask (v : AnnotationVisitor σ) : Request → Visit σ Unit
  | .visit e => v.visit e
  | .finish => v.finish

@[simp]
theorem ask_on (part : Part τ σ) (v : AnnotationVisitor σ) (r : Request) :
    (v.on part).ask r = (v.ask r).on part := by
  cases r <;> rfl

/-- There is one visitor for all targets as soon as there is any target. -/
theorem isSome_collapse (targets : List (AnnotationVisitor σ)) :
    (collapse targets).isSome ↔ ∃ target, target ∈ targets := by
  match targets with
  | [] => simp [collapse]
  | [target] => simp [collapse]
  | target :: _ :: _ => exact iff_of_true rfl ⟨target, List.mem_cons_self⟩

/-- The one visitor for all targets passes each request to every one of them. -/
theorem ask_collapse {targets : List (AnnotationVisitor σ)} {v : AnnotationVisitor σ}
    (h : collapse targets = some v) (r : Request) : v.ask r = targets.forM (·.ask r) := by
  match targets, h with
  | [target], h =>
    cases h
    simp
  | _ :: _ :: _, h =>
    cases h
    cases r <;> rfl

end AnnotationVisitor

namespace FieldVisitor

/-- Only an annotation can be answered with a visitor. -/
def ask (v : FieldVisitor σ) : Request → Visit σ (Option (AnnotationVisitor σ))
  | .annotate descriptor visible => v.annotate descriptor visible
  | .annotateType target descriptor visible => v.annotateType target descriptor visible
  | .attach a => (fun _ => none) <$> v.attach a
  | .finish => (fun _ => none) <$> v.finish

@[simp]
theorem ask_on (part : Part τ σ) (v : FieldVisitor σ) (r : Request) :
    (v.on part).ask r = (Option.map (·.on part) <$> v.ask r).on part := by
  cases r <;> exact Run.ext fun t => by simp [ask, FieldVisitor.on, Run.map_on, Except.map]

/-! ## The gate -/

/-- Type annotations are barred below the level that they came with. -/
def Request.Barred (r : Request) (level : Level) : Prop := r.call = .annotateType ∧ level < .asm5

instance (r : Request) (level : Level) : Decidable (r.Barred level) :=
  inferInstanceAs (Decidable (_ ∧ _))

/-- What a barred request is answered with. -/
def barred : Error := .unsupportedFeature "type annotations" .asm5

theorem requireTypeAnnotations_bind (level : Level) (r : Request) (hr : r.call = .annotateType)
    (x : Visit σ α) :
    (do requireTypeAnnotations level; x) =
      if r.Barred level then .of (.error barred) else x := by
  by_cases h : level < .asm5 <;>
    simp [requireTypeAnnotations, Level.require, Request.Barred, hr, h] <;> rfl

/-- A link passes a request on unchanged, but for the type annotations that its level bars. -/
theorem ask_link (level : Level) (v : FieldVisitor σ) (r : Request) :
    (FieldLink.visitor ⟨level, some v⟩).ask r =
      if r.Barred level then .of (.error barred) else v.ask r := by
  cases r with
  | annotateType target descriptor visible => exact requireTypeAnnotations_bind level _ rfl _
  | _ => rfl

theorem mapM_map_eq (g : α → β) (list : List τ) (f : τ → Run ε σ α) :
    list.mapM (fun v => g <$> f v) = List.map g <$> list.mapM f := by
  induction list with
  | nil => simp
  | cons v list ih => simp [ih]

/-- Where nobody can hand anything out, neither can the list. -/
theorem collapse_silent (list : List α) (f : α → Visit σ Unit) :
    (fun targets => AnnotationVisitor.collapse (targets.filterMap id)) <$>
        list.mapM (fun v => (fun _ => (none : Option (AnnotationVisitor σ))) <$> f v) =
      (fun _ => none) <$> list.forM f := by
  rw [mapM_map_eq, forM_eq_map_mapM, ← comp_map, ← comp_map]
  congr 1
  funext answers
  have hnone : (answers.map fun _ => (none : Option (AnnotationVisitor σ))).filterMap id = [] := by
    simp
  exact congrArg AnnotationVisitor.collapse hnone

/-- Observers are asked in order, and the visitors that they hand out are joined into one. -/
theorem ask_observers (level : Level) (list : List (FieldVisitor σ)) (r : Request) :
    (observers level list).ask r =
      if r.Barred level then .of (.error barred)
      else (fun targets => AnnotationVisitor.collapse (targets.filterMap id)) <$>
        list.mapM (·.ask r) := by
  cases r with
  | annotateType target descriptor visible =>
    rw [← requireTypeAnnotations_bind level _ rfl, map_eq_pure_bind]
    rfl
  | annotate descriptor visible => exact bind_pure_comp _ _
  | attach a => exact (collapse_silent list (·.attach a)).symm
  | finish => exact (collapse_silent list (·.finish)).symm

/-! ## Sessions -/

/-- A message to the field, or to the annotation visitor at hand. -/
inductive Message
  | field (r : Request)
  | element (r : AnnotationVisitor.Request)

/-- The state that a visitor acts on, and the annotation visitor at hand. -/
structure Session (σ : Type) where
  state : σ
  atHand : Option (AnnotationVisitor σ)

/-- How a session begins. -/
abbrev Session.start (s : σ) : Session σ := ⟨s, none⟩

/-- A message that is accepted may be answered with an annotation visitor, or with nothing. -/
abbrev Answer := Except Error Bool

/-- Sends a message. One for an annotation visitor cannot be sent while none is at hand, and has no
answer then. -/
def hear (v : FieldVisitor σ) (d : Session σ) : Message → Option Answer × Session σ
  | .field r =>
    let (result, s) := (v.ask r).exec d.state
    (some (result.map Option.isSome), ⟨s, result.toOption.join⟩)
  | .element r =>
    match d.atHand with
    | some a =>
      let (result, s) := (a.ask r).exec d.state
      (some (result.map fun _ => false), ⟨s, some a⟩)
    | none => (none, d)

section
variable (v : FieldVisitor σ) (d : Session σ) (s : σ) (a : AnnotationVisitor σ)

theorem hear_field (r : Request) :
    v.hear d (.field r) =
      (some (((v.ask r).exec d.state).1.map Option.isSome),
        ⟨((v.ask r).exec d.state).2, ((v.ask r).exec d.state).1.toOption.join⟩) := rfl

theorem hear_element_some (r : AnnotationVisitor.Request) :
    v.hear ⟨s, some a⟩ (.element r) =
      (some (((a.ask r).exec s).1.map fun _ => false), ⟨((a.ask r).exec s).2, some a⟩) := rfl

/-- Without an annotation visitor at hand an element is not sent. -/
theorem hear_element_none (r : AnnotationVisitor.Request) :
    v.hear ⟨s, none⟩ (.element r) = (none, ⟨s, none⟩) := rfl

end

/-- How a sequence of messages leaves a visitor. -/
def after (v : FieldVisitor σ) (d : Session σ) (ms : List Message) : Session σ :=
  ms.foldl (fun d m => (v.hear d m).2) d

def answers (v : FieldVisitor σ) : Session σ → List Message → List (Option Answer)
  | _, [] => []
  | d, m :: ms => (v.hear d m).1 :: v.answers (v.hear d m).2 ms

section
variable (v : FieldVisitor σ) (d : Session σ) (m : Message) (ms ms' : List Message)

@[simp]
theorem after_nil : v.after d [] = d := rfl

@[simp]
theorem after_cons : v.after d (m :: ms) = v.after (v.hear d m).2 ms := rfl

theorem after_append : v.after d (ms ++ ms') = v.after (v.after d ms) ms' := List.foldl_append

@[simp]
theorem answers_nil : v.answers d [] = [] := rfl

@[simp]
theorem answers_cons : v.answers d (m :: ms) = (v.hear d m).1 :: v.answers (v.hear d m).2 ms := rfl

theorem answers_append :
    v.answers d (ms ++ ms') = v.answers d ms ++ v.answers (v.after d ms) ms' := by
  induction ms generalizing d with
  | nil => rfl
  | cons m ms ih => simp [ih]

end

/-- Visitors that do the same on each request that they are sent are driven alike. -/
theorem drive_congr_of_mem {v w : FieldVisitor σ} {ms : List Message}
    (h : ∀ r, Message.field r ∈ ms → v.ask r = w.ask r) (d : Session σ) :
    v.answers d ms = w.answers d ms ∧ v.after d ms = w.after d ms := by
  induction ms generalizing d with
  | nil => exact ⟨rfl, rfl⟩
  | cons m ms ih =>
    have hhear : v.hear d m = w.hear d m := by
      cases m with
      | field r => simp only [hear, h r List.mem_cons_self]
      | element r => rfl
    obtain ⟨hanswers, hafter⟩ := ih (fun r hr => h r (List.mem_cons_of_mem _ hr)) (w.hear d m).2
    rw [answers_cons, answers_cons, after_cons, after_cons, hhear]
    exact ⟨congrArg _ hanswers, hafter⟩

end FieldVisitor

end ClassUnit
