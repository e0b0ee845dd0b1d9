import Mathlib.Data.List.ModifyLast
import ClassUnit.Proofs.Field.Placement

/-! # Recorded fields

What a recorded field holds is what was accepted of the messages to it, sorted by kind
(`FieldNode.Recorded.after`). A replay sends this back in the order of the kinds, each annotation
with its elements and one end, and closes what was left open
(`FieldNode.messages_ofExchanges`). -/

namespace ClassUnit

variable {σ β : Type}

/-! ## Exchanges -/

namespace AnnotationVisitor.Request

def element? : Request → Option Element
  | .visit e => some e
  | .finish => none

def isEnd : Request → Bool
  | .visit _ => false
  | .finish => true

end AnnotationVisitor.Request

namespace FieldVisitor

/-- A request to a field, and what was then asked of the annotation visitor that it was answered
with. -/
structure Exchange where
  request : Request
  contents : List AnnotationVisitor.Request

namespace Exchange

/-- A message begins an exchange, or belongs to the last one. -/
def add (xs : List Exchange) : Message → List Exchange
  | .field r => xs ++ [⟨r, []⟩]
  | .element r => xs.modifyLast fun x => { x with contents := x.contents ++ [r] }

def ofMessages (ms : List Message) : List Exchange := ms.foldl add []

def ofKind (call : FieldCall) (xs : List Exchange) : List Exchange :=
  xs.filter (·.request.call = call)

/-- The exchange once more, with its elements in their order and one end. -/
def closed (x : Exchange) : List Message :=
  .field x.request :: ((x.contents.filterMap (·.element?)).map fun e => .element (.visit e)) ++
    [.element .finish]

end Exchange

/-- The annotations, the type annotations and the attributes among the messages, in their order and
each annotation closed, and one end of the field. -/
def regrouped (ms : List Message) : List Message :=
  let xs := Exchange.ofMessages ms
  (Exchange.ofKind .annotate xs).flatMap Exchange.closed ++
    ((Exchange.ofKind .annotateType xs).flatMap Exchange.closed ++
      ((Exchange.ofKind .attach xs).map (.field ·.request) ++ [.field .finish]))

/-- Of the messages sent to a visitor, the ones that it accepts. -/
def accepted (v : FieldVisitor σ) : Session σ → List Message → List Message
  | _, [] => []
  | d, m :: ms =>
    match v.hear d m with
    | (some (.ok _), d') => m :: v.accepted d' ms
    | (_, d') => v.accepted d' ms

/-! ## A visitor that writes everything down -/

/-- Writes down what it is sent for an annotation. -/
def notes : AnnotationVisitor (List Message) where
  visit e := modify (· ++ [.element (.visit e)])
  finish := modify (· ++ [.element .finish])

/-- Writes down every message. It refuses nothing but type annotations below their level. -/
def scribe (level : Level) : FieldVisitor (List Message) where
  level := level
  annotate descriptor visible := do
    modify (· ++ [.field (.annotate descriptor visible)])
    return some notes
  annotateType target descriptor visible := do
    requireTypeAnnotations level
    modify (· ++ [.field (.annotateType target descriptor visible)])
    return some notes
  attach a := modify (· ++ [.field (.attach a)])
  finish := modify (· ++ [.field .finish])

end FieldVisitor

open FieldVisitor (Exchange Message Session accepted notes regrouped scribe)

/-! ## What is recorded of exchanges -/

/-- What is recorded of an annotation and the requests to its visitor. -/
def AnnotationNode.ofRequests (descriptor : String) (visible : Bool)
    (rs : List AnnotationVisitor.Request) : AnnotationNode where
  descriptor
  visible
  elements := rs.filterMap (·.element?)
  finished := rs.any (·.isEnd)

theorem AnnotationNode.exec_recorder (descriptor : String) (visible : Bool)
    (rs : List AnnotationVisitor.Request) (r : AnnotationVisitor.Request) :
    (recorder.ask r).exec (ofRequests descriptor visible rs) =
      (.ok (), ofRequests descriptor visible (rs ++ [r])) := by
  cases r with
  | visit e =>
    change (Except.ok (), _) = _
    simp [ofRequests, AnnotationVisitor.Request.element?, AnnotationVisitor.Request.isEnd]
  | finish =>
    change (Except.ok (), _) = _
    simp [ofRequests, AnnotationVisitor.Request.element?, AnnotationVisitor.Request.isEnd]

namespace FieldVisitor.Exchange

def annotation? (x : Exchange) : Option AnnotationNode :=
  match x.request with
  | .annotate descriptor visible => some (.ofRequests descriptor visible x.contents)
  | _ => none

def typeAnnotation? (x : Exchange) : Option TypeAnnotationNode :=
  match x.request with
  | .annotateType target descriptor visible =>
    some ⟨target, .ofRequests descriptor visible x.contents⟩
  | _ => none

def attribute? (x : Exchange) : Option Attribute :=
  match x.request with
  | .attach a => some a
  | _ => none

end FieldVisitor.Exchange

namespace FieldNode

/-- What is recorded of exchanges, kind by kind. -/
def ofExchanges (header : FieldHeader) (xs : List Exchange) : FieldNode where
  header
  annotations := xs.filterMap (·.annotation?)
  typeAnnotations := xs.filterMap (·.typeAnnotation?)
  attributes := xs.filterMap (·.attribute?)
  finished := xs.any fun x => decide (x.request = .finish)

section
variable (header : FieldHeader) (xs : List Exchange) (contents : List AnnotationVisitor.Request)

theorem ofExchanges_annotate (descriptor : String) (visible : Bool) :
    ofExchanges header (xs ++ [⟨.annotate descriptor visible, contents⟩]) =
      { ofExchanges header xs with
        annotations :=
          (ofExchanges header xs).annotations ++ [.ofRequests descriptor visible contents] } := by
  simp [ofExchanges, Exchange.annotation?, Exchange.typeAnnotation?, Exchange.attribute?]

theorem ofExchanges_annotateType (target : TypeTarget) (descriptor : String) (visible : Bool) :
    ofExchanges header (xs ++ [⟨.annotateType target descriptor visible, contents⟩]) =
      { ofExchanges header xs with
        typeAnnotations := (ofExchanges header xs).typeAnnotations ++
          [⟨target, .ofRequests descriptor visible contents⟩] } := by
  simp [ofExchanges, Exchange.annotation?, Exchange.typeAnnotation?, Exchange.attribute?]

theorem ofExchanges_attach (a : Attribute) :
    ofExchanges header (xs ++ [⟨.attach a, contents⟩]) =
      { ofExchanges header xs with attributes := (ofExchanges header xs).attributes ++ [a] } := by
  simp [ofExchanges, Exchange.annotation?, Exchange.typeAnnotation?, Exchange.attribute?]

theorem ofExchanges_finish :
    ofExchanges header (xs ++ [⟨.finish, contents⟩]) =
      { ofExchanges header xs with finished := true } := by
  simp [ofExchanges, Exchange.annotation?, Exchange.typeAnnotation?, Exchange.attribute?]

end

/-- What exchanges of one kind leave behind, sent once more. -/
theorem flatMap_filterMap (call : FieldCall) {g : Exchange → Option β} {f : β → List Message}
    {k : Exchange → List Message}
    (h : ∀ x, (g x).elim [] f = if x.request.call = call then k x else []) (xs : List Exchange) :
    (xs.filterMap g).flatMap f = (Exchange.ofKind call xs).flatMap k := by
  have hleft (xs : List Exchange) :
      (xs.filterMap g).flatMap f = xs.flatMap fun x => (g x).elim [] f := by
    induction xs with
    | nil => rfl
    | cons x xs ih => cases hg : g x <;> simp [hg, ih]
  have hright (xs : List Exchange) :
      (Exchange.ofKind call xs).flatMap k =
        xs.flatMap fun x => if x.request.call = call then k x else [] := by
    rw [Exchange.ofKind]
    induction xs with
    | nil => rfl
    | cons x xs ih => by_cases hcall : x.request.call = call <;> simp [hcall, ih]
  rw [hleft, hright]
  simp only [h]

/-- The replay of what is recorded of exchanges is those exchanges by kinds, closed. -/
theorem messages_ofExchanges (header : FieldHeader) (ms : List Message) :
    (ofExchanges header (Exchange.ofMessages ms)).messages = regrouped ms := by
  have hannounced (r : FieldVisitor.Request) (descriptor : String) (visible : Bool)
      (contents : List AnnotationVisitor.Request) :
      announced r (.ofRequests descriptor visible contents) = Exchange.closed ⟨r, contents⟩ := by
    simp [announced, AnnotationNode.requests, AnnotationNode.ofRequests, Exchange.closed]
  rw [messages, regrouped, List.map_eq_flatMap]
  congr 1
  · refine flatMap_filterMap .annotate (fun x => ?_) _
    obtain ⟨r, contents⟩ := x
    cases r with
    | annotate descriptor visible => exact hannounced _ descriptor visible contents
    | _ => rfl
  congr 1
  · refine flatMap_filterMap .annotateType (fun x => ?_) _
    obtain ⟨r, contents⟩ := x
    cases r with
    | annotateType target descriptor visible => exact hannounced _ descriptor visible contents
    | _ => rfl
  congr 1
  refine flatMap_filterMap .attach (fun x => ?_) _
  obtain ⟨r, contents⟩ := x
  cases r <;> rfl

/-! ## What is recorded of a visit -/

variable {level : Level} {header : FieldHeader} {xs : List Exchange} {d : Session FieldNode}

/-- The annotation visitor records into the last exchange. -/
def RecordsLast (a : AnnotationVisitor FieldNode) (header : FieldHeader) (xs : List Exchange) :
    Prop :=
  ∃ before r, (∃ contents, xs = before ++ [⟨r, contents⟩]) ∧ ∀ contents asked,
    (a.ask asked).exec (ofExchanges header (before ++ [⟨r, contents⟩])) =
      (.ok (), ofExchanges header (before ++ [⟨r, contents ++ [asked]⟩]))

/-- The exchanges are what has been recorded so far. -/
structure Recorded (level : Level) (header : FieldHeader) (xs : List Exchange)
    (d : Session FieldNode) : Prop where
  state : d.state = ofExchanges header xs
  allowed : ∀ x ∈ xs, ¬x.request.Barred level
  atHand : ∀ a, d.atHand = some a → RecordsLast a header xs

/-- The annotation that comes last. -/
theorem annotationAt_sits (n : FieldNode) :
    (annotationAt n.annotations.length).Sits
      fun a => { n with annotations := n.annotations ++ [a] } := by
  have hfield : (Part.mk FieldNode.annotations fun annotations n => { n with annotations }).Sits
      fun annotations => { n with annotations } := ⟨fun _ => rfl, fun _ _ => rfl⟩
  exact (Part.item_sits n.annotations).within hfield

theorem typeAnnotationAt_sits (n : FieldNode) (target : TypeTarget) :
    (typeAnnotationAt n.typeAnnotations.length).Sits
      fun a => { n with typeAnnotations := n.typeAnnotations ++ [⟨target, a⟩] } := by
  have hnode : (Part.mk TypeAnnotationNode.node fun node n => { n with node }).Sits
      fun a => ⟨target, a⟩ := ⟨fun _ => rfl, fun _ _ => rfl⟩
  have hfield : (Part.mk FieldNode.typeAnnotations
      fun typeAnnotations n => { n with typeAnnotations }).Sits
      fun typeAnnotations => { n with typeAnnotations } := ⟨fun _ => rfl, fun _ _ => rfl⟩
  exact (hnode.within (Part.item_sits n.typeAnnotations)).within hfield

section
variable (level : Level) (n : FieldNode)

theorem exec_annotate (descriptor : String) (visible : Bool) :
    ((recorder level).annotate descriptor visible).exec n =
      (.ok (some (AnnotationNode.recorder.on (annotationAt n.annotations.length))),
        { n with annotations := n.annotations ++ [{ descriptor, visible }] }) := rfl

theorem exec_annotateType (target : TypeTarget) (descriptor : String) (visible : Bool) :
    ((recorder level).annotateType target descriptor visible).exec n =
      if level < .asm5 then (.error FieldVisitor.barred, n)
      else (.ok (some (AnnotationNode.recorder.on (typeAnnotationAt n.typeAnnotations.length))),
        { n with
          typeAnnotations := n.typeAnnotations ++ [⟨target, { descriptor, visible }⟩] }) := by
  by_cases h : level < .asm5 <;>
    simp only [recorder, requireTypeAnnotations, Level.require, h, if_true, if_false] <;> rfl

end

namespace Recorded

/-- Between annotations nobody is at hand. -/
theorem idle {n : FieldNode} (hstate : n = ofExchanges header xs)
    (hallowed : ∀ x ∈ xs, ¬x.request.Barred level) : Recorded level header xs (.start n) := by
  refine ⟨hstate, hallowed, fun a ha => ?_⟩
  cases ha

/-- Within an annotation, a recorder is at hand that acts in the place of the last exchange. -/
theorem within {part : Part FieldNode AnnotationNode} {place : AnnotationNode → FieldNode}
    (hpart : part.Sits place) {r : FieldVisitor.Request} {descriptor : String} {visible : Bool}
    (hplace : ∀ contents, ofExchanges header (xs ++ [⟨r, contents⟩]) =
      place (.ofRequests descriptor visible contents))
    (hallowed : ∀ x ∈ xs ++ [⟨r, []⟩], ¬x.request.Barred level) :
    Recorded level header (xs ++ [⟨r, []⟩])
      ⟨place { descriptor, visible }, some (AnnotationNode.recorder.on part)⟩ := by
  refine ⟨(hplace []).symm, hallowed, fun a ha => ?_⟩
  cases ha
  refine ⟨xs, r, ⟨[], rfl⟩, fun contents asked => ?_⟩
  rw [hplace, hplace, AnnotationVisitor.ask_on, Run.exec_on_place hpart,
    AnnotationNode.exec_recorder]

/-- A request that is accepted begins an exchange. -/
theorem hear_field (h : Recorded level header xs d) {r : FieldVisitor.Request}
    (hr : ¬r.Barred level) :
    ∃ handsOut d', (recorder level).hear d (.field r) = (some (.ok handsOut), d') ∧
      Recorded level header (xs ++ [⟨r, []⟩]) d' := by
  have hallowed : ∀ x ∈ xs ++ [⟨r, []⟩], ¬x.request.Barred level := by
    simpa [or_imp, forall_and] using ⟨h.allowed, hr⟩
  obtain ⟨s, a⟩ := d
  obtain rfl : s = ofExchanges header xs := h.state
  cases r with
  | annotate descriptor visible =>
    have hwithin := within (annotationAt_sits (ofExchanges header xs))
      (ofExchanges_annotate header xs · descriptor visible) hallowed
    exact ⟨true, _, rfl, hwithin⟩
  | annotateType target descriptor visible =>
    have hlevel : ¬level < .asm5 := fun hlevel => hr ⟨rfl, hlevel⟩
    have hheard := FieldVisitor.hear_field (recorder level) ⟨ofExchanges header xs, a⟩
      (.annotateType target descriptor visible)
    rw [FieldVisitor.ask, exec_annotateType, if_neg hlevel] at hheard
    have hwithin := within (typeAnnotationAt_sits (ofExchanges header xs) target)
      (ofExchanges_annotateType header xs · target descriptor visible) hallowed
    exact ⟨true, _, hheard, hwithin⟩
  | attach a => exact ⟨false, _, rfl, idle (ofExchanges_attach header xs [] a).symm hallowed⟩
  | finish => exact ⟨false, _, rfl, idle (ofExchanges_finish header xs []).symm hallowed⟩

/-- A request that is barred changes nothing. -/
theorem hear_barred (h : Recorded level header xs d) {r : FieldVisitor.Request}
    (hr : r.Barred level) :
    ∃ d', (recorder level).hear d (.field r) = (some (.error FieldVisitor.barred), d') ∧
      Recorded level header xs d' := by
  obtain ⟨hcall, hlevel⟩ := hr
  cases r with
  | annotateType target descriptor visible =>
    have hheard := FieldVisitor.hear_field (recorder level) d
      (.annotateType target descriptor visible)
    rw [FieldVisitor.ask, exec_annotateType, if_pos hlevel] at hheard
    exact ⟨_, hheard, idle h.state h.allowed⟩
  | _ => cases hcall

/-- What is sent to the annotation visitor at hand belongs to the last exchange. -/
theorem hear_element (h : Recorded level header xs d) (asked : AnnotationVisitor.Request) :
    (recorder level).hear d (.element asked) = (none, d) ∨
      ∃ d', (recorder level).hear d (.element asked) = (some (.ok false), d') ∧
        Recorded level header (Exchange.add xs (.element asked)) d' := by
  obtain ⟨s, _ | a⟩ := d
  · exact .inl rfl
  obtain rfl : s = ofExchanges header xs := h.state
  obtain ⟨before, r, ⟨contents, rfl⟩, hrecords⟩ := h.atHand a rfl
  have hadd : Exchange.add (before ++ [⟨r, contents⟩]) (.element asked) =
      before ++ [⟨r, contents ++ [asked]⟩] := by
    rw [Exchange.add, List.modifyLast_concat]
  have hheard := FieldVisitor.hear_element_some (recorder level)
    (ofExchanges header (before ++ [⟨r, contents⟩])) a asked
  rw [hrecords] at hheard
  refine .inr ⟨_, hheard, ?_⟩
  rw [hadd]
  refine ⟨rfl, ?_, ?_⟩
  · have hallowed := h.allowed
    simp only [List.mem_append, List.mem_singleton, or_imp, forall_and, forall_eq] at hallowed ⊢
    exact hallowed
  · rintro _ ⟨⟩
    exact ⟨before, r, ⟨_, rfl⟩, hrecords⟩

/-- What is recorded of a visit is what was accepted of it. -/
theorem after (h : Recorded level header xs d) (ms : List Message) :
    Recorded level header ((accepted (recorder level) d ms).foldl Exchange.add xs)
      ((recorder level).after d ms) := by
  induction ms generalizing xs d with
  | nil => exact h
  | cons m ms ih =>
    rw [FieldVisitor.after_cons, accepted]
    cases m with
    | field r =>
      by_cases hr : r.Barred level
      · obtain ⟨d', hheard, h'⟩ := h.hear_barred hr
        rw [hheard]
        exact ih h'
      · obtain ⟨_, d', hheard, h'⟩ := h.hear_field hr
        rw [hheard]
        exact ih h'
    | element asked =>
      rcases h.hear_element asked with hheard | ⟨d', hheard, h'⟩ <;> rw [hheard]
      · exact ih h
      · exact ih h'

end Recorded

end FieldNode

end ClassUnit
