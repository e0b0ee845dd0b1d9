import ClassUnit.Class.Node
import ClassUnit.Proofs.Field.Session

/-! # Sessions with a class visitor

A message to a class goes to the class itself, or to the field visitor at hand, which is the one
that the last message to the class was answered with. So one level deeper than a session with a
field visitor, and built on one. -/

namespace ClassUnit.ClassVisitor

variable {σ : Type}

/-- What a class visitor can be asked for. -/
inductive Request
  | header (h : ClassHeader)
  | field (h : FieldHeader)
  | method (h : MethodHeader)
  | finish
  deriving DecidableEq

/-- Only a field can be answered with a visitor. -/
def ask (v : ClassVisitor σ) : Request → Visit σ (Option (FieldVisitor σ))
  | .header h => (fun _ => none) <$> v.header h
  | .field h => v.field h
  | .method h => (fun _ => none) <$> v.method h
  | .finish => (fun _ => none) <$> v.finish

/-- A message to the class, or to the field visitor at hand. -/
inductive Message
  | unit (r : Request)
  | member (m : FieldVisitor.Message)

/-- The field visitor at hand, and the session with it, which holds the state. -/
structure Session (σ : Type) where
  atHand : Option (FieldVisitor σ)
  visit : FieldVisitor.Session σ

/-- How a session begins. -/
abbrev Session.start (s : σ) : Session σ := ⟨none, .start s⟩

/-- The state that the visitor acts on. -/
def Session.state (d : Session σ) : σ := d.visit.state

/-- Sends a message. One for a field visitor cannot be sent while none is at hand, and has no answer
then. -/
def hear (v : ClassVisitor σ) (d : Session σ) : Message → Option FieldVisitor.Answer × Session σ
  | .unit r =>
    let (result, s) := (v.ask r).exec d.state
    (some (result.map Option.isSome), ⟨result.toOption.join, .start s⟩)
  | .member m =>
    match d.atHand with
    | some f => ((f.hear d.visit m).1, ⟨some f, (f.hear d.visit m).2⟩)
    | none => (none, d)

section
variable (v : ClassVisitor σ) (d : Session σ) (f : FieldVisitor σ) (visit : FieldVisitor.Session σ)

/-- A field visitor is at hand only until something else of the class is sent. -/
theorem hear_unit (r : Request) :
    v.hear d (.unit r) =
      (some (((v.ask r).exec d.state).1.map Option.isSome),
        ⟨((v.ask r).exec d.state).1.toOption.join, .start ((v.ask r).exec d.state).2⟩) := rfl

theorem hear_member_some (m : FieldVisitor.Message) :
    v.hear ⟨some f, visit⟩ (.member m) =
      ((f.hear visit m).1, ⟨some f, (f.hear visit m).2⟩) := rfl

end

/-- How a sequence of messages leaves a visitor. -/
def after (v : ClassVisitor σ) (d : Session σ) (ms : List Message) : Session σ :=
  ms.foldl (fun d m => (v.hear d m).2) d

@[simp]
theorem after_nil (v : ClassVisitor σ) (d : Session σ) : v.after d [] = d := rfl

@[simp]
theorem after_cons (v : ClassVisitor σ) (d : Session σ) (m : Message) (ms : List Message) :
    v.after d (m :: ms) = v.after (v.hear d m).2 ms := rfl

end ClassUnit.ClassVisitor
