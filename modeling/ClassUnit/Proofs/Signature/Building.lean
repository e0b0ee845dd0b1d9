import ClassUnit.Proofs.Signature.WellFormed
import ClassUnit.Signature.Builder

/-! # Building a tree from its events

A builder that is given the events of a tree ends with that tree (`Document.ofEvents_events`). A
type leaves the builder as a complete type does (`Builder.buildAll_type`), wherever it stands; the
frames below it decide what becomes of it. The variance of a tagged argument is not part of its
event, so the trees are those whose tagged arguments are exact. -/

namespace ClassUnit.Signature

mutual

/-- Only exact arguments are tagged. -/
def TypeTree.TagsExact : TypeTree → Prop
  | .base _ | .typeVariable _ => True
  | .array element => element.TagsExact
  | .classType outer inners => outer.TagsExact ∧ segmentsTagExact inners

def Segment.TagsExact : Segment → Prop
  | .mk _ arguments => argumentsTagExact arguments

def Argument.TagsExact : Argument → Prop
  | .unbounded => True
  | .bounded variance bound tagged => (tagged → variance = .exact) ∧ bound.TagsExact

def argumentsTagExact : List Argument → Prop
  | [] => True
  | a :: as => a.TagsExact ∧ argumentsTagExact as

def segmentsTagExact : List Segment → Prop
  | [] => True
  | s :: ss => s.TagsExact ∧ segmentsTagExact ss

end

structure Formal.TagsExact (f : Formal) : Prop where
  classBound : ∀ t, f.classBound = some t → t.TagsExact
  interfaceBounds : ∀ t ∈ f.interfaceBounds, t.TagsExact

structure ClassTree.TagsExact (t : ClassTree) : Prop where
  formals : ∀ f ∈ t.formals, f.TagsExact
  superclass : t.superclass.TagsExact
  interfaces : ∀ i ∈ t.interfaces, i.TagsExact

structure MethodTree.TagsExact (t : MethodTree) : Prop where
  formals : ∀ f ∈ t.formals, f.TagsExact
  parameters : ∀ p ∈ t.parameters, p.TagsExact
  result : t.result.TagsExact
  exceptions : ∀ e ∈ t.exceptions, e.TagsExact

def Document.TagsExact : Document → Prop
  | .ofClass tree => tree.TagsExact
  | .ofMethod tree => tree.TagsExact
  | .ofType tree => tree.TagsExact

/-! ## Well-formed trees -/

mutual

theorem TypeTree.WellFormed.tagsExact :
    ∀ {depth : Nat} {t : TypeTree}, t.WellFormed depth → t.TagsExact
  | _, .base _, _ | _, .typeVariable _, _ => trivial
  | _, .array element, h => show element.TagsExact from TypeTree.WellFormed.tagsExact h.2.2
  | _, .classType _ _, h => ⟨Segment.WellFormed.tagsExact h.2.1, tagExact_of_segments h.2.2⟩

theorem Segment.WellFormed.tagsExact :
    ∀ {depth : Nat} {s : Segment}, s.WellFormed depth → s.TagsExact
  | _, .mk _ _, h => tagExact_of_arguments h.2.2

theorem Argument.WellFormed.tagsExact :
    ∀ {depth : Nat} {a : Argument}, a.WellFormed depth → a.TagsExact
  | _, .unbounded, _ => trivial
  | _, .bounded _ _ _, h => ⟨h.1, TypeTree.WellFormed.tagsExact h.2⟩

theorem tagExact_of_arguments :
    ∀ {depth : Nat} {as : List Argument}, argumentsWellFormed depth as → argumentsTagExact as
  | _, [], _ => trivial
  | _, _ :: _, h => ⟨Argument.WellFormed.tagsExact h.1, tagExact_of_arguments h.2⟩

theorem tagExact_of_segments :
    ∀ {depth : Nat} {ss : List Segment}, segmentsWellFormed depth ss → segmentsTagExact ss
  | _, [], _ => trivial
  | _, _ :: _, h => ⟨Segment.WellFormed.tagsExact h.1, tagExact_of_segments h.2⟩

end

theorem Formal.WellFormed.tagsExact {f : Formal} (h : f.WellFormed) : f.TagsExact :=
  ⟨fun t ht => (h.classBound t ht).1.tagsExact, fun t ht => (h.interfaceBounds t ht).tagsExact⟩

theorem Document.WellFormed.tagsExact : ∀ {d : Document}, d.WellFormed → d.TagsExact
  | .ofClass _, h =>
    ⟨fun f hf => (h.formals.all f hf).tagsExact, h.superclass.tagsExact,
      fun i hi => (h.interfaces i hi).tagsExact⟩
  | .ofMethod _, h =>
    ⟨fun f hf => (h.formals.all f hf).tagsExact, fun p hp => (h.parameters p hp).tagsExact,
      h.result.tagsExact, fun e he => (h.exceptions e he).tagsExact⟩
  | .ofType _, h => TypeTree.WellFormed.tagsExact h

/-! ## Open class types -/

namespace Builder
namespace OpenClass

/-- The segments of an open class type, outermost first. -/
def segments (c : OpenClass) : List Segment := (c.innermost :: c.earlier).reverse

def addAll (c : OpenClass) (as : List Argument) : OpenClass := as.foldl add c

def enterAll (c : OpenClass) (ss : List Segment) : OpenClass :=
  ss.foldl (fun c s => (c.enter s.name).addAll s.arguments) c

@[simp] theorem addAll_cons (c : OpenClass) (a : Argument) (as : List Argument) :
    c.addAll (a :: as) = (c.add a).addAll as := rfl

@[simp] theorem enterAll_cons (c : OpenClass) (s : Segment) (ss : List Segment) :
    c.enterAll (s :: ss) = ((c.enter s.name).addAll s.arguments).enterAll ss := rfl

theorem addAll_eq (c : OpenClass) (as : List Argument) :
    c.addAll as = { c with arguments := as.reverse ++ c.arguments } := by
  induction as generalizing c with
  | nil => rfl
  | cons a as ih => rw [addAll_cons, ih]; simp [add]

theorem segments_new (name : String) (as : List Argument) :
    (({ name } : OpenClass).addAll as).segments = [.mk name as] := by
  simp [addAll_eq, segments, innermost]

/-- The segments of an open class are those that it was given, in their order. -/
theorem segments_enterAll (c : OpenClass) (ss : List Segment) :
    (c.enterAll ss).segments = c.segments ++ ss := by
  induction ss generalizing c with
  | nil => simp [enterAll]
  | cons s ss ih =>
    obtain ⟨name, as⟩ := s
    rw [enterAll_cons, ih]
    simp [addAll_eq, segments, innermost, enter, Segment.name, Segment.arguments]

theorem close_eq {c : OpenClass} (h : c.segments = outer :: inners) :
    c.close = .classType outer inners := by
  rw [segments] at h
  rw [close, h]

end OpenClass

/-! ## Building a type -/

/-- The builder after a number of deliveries, whoever receives them. -/
def buildAll (b : Builder) (ds : List Delivery) : Except Breach Builder :=
  b.build (ds.map (·.event))

@[simp] theorem buildAll_nil (b : Builder) : b.buildAll [] = .ok b := rfl

theorem buildAll_cons (b : Builder) (d : Delivery) (ds : List Delivery) :
    b.buildAll (d :: ds) = (b.step d.event).bind (·.buildAll ds) := rfl

theorem buildAll_singleton (b : Builder) : b.buildAll [d] = b.step d.event := by
  rw [buildAll_cons]
  cases b.step d.event <;> rfl

theorem buildAll_cons_ok {b c : Builder} (h : b.step d.event = .ok c) :
    b.buildAll (d :: ds) = c.buildAll ds := by
  rw [buildAll_cons, h]
  rfl

/-- Deliveries can be cut anywhere. -/
theorem buildAll_append (b : Builder) (ds es : List Delivery) :
    b.buildAll (ds ++ es) = (b.buildAll ds).bind (·.buildAll es) := by
  simp only [buildAll, build, List.map_append, List.foldlM_append]
  rfl

theorem buildAll_append_ok {b c : Builder} (h : b.buildAll ds = .ok c) :
    b.buildAll (ds ++ es) = c.buildAll es := by
  rw [buildAll_append, h]
  rfl

/-- What becomes of a complete type depends on the frames below it, not on those it has left. -/
theorem deliver_frames (b : Builder) (frames : List Frame) (fs : List Frame) (t : TypeTree) :
    ({ b with frames } : Builder).deliver fs t = b.deliver fs t := by
  induction fs generalizing t with
  | nil => rfl
  | cons f fs ih =>
    cases f with
    | array => exact ih (.array t)
    | role role => rfl
    | openClass c => rfl
    | argument variance tagged =>
      cases fs with
      | nil => rfl
      | cons f fs => cases f <;> rfl

theorem push_array_complete (b : Builder) (t : TypeTree) :
    (b.push .array).complete t = b.complete (.array t) :=
  deliver_frames b _ b.frames (.array t)

theorem push_argument_complete (b : Builder) (c : OpenClass) (variance : Variance) (tagged : Bool)
    (t : TypeTree) :
    ((b.push (.openClass c)).push (.argument variance tagged)).complete t =
      .ok (b.push (.openClass (c.add (.bounded variance t tagged)))) := rfl

theorem step_argumentEvent (b : Builder) {tagged : Bool} (h : tagged → variance = .exact) :
    b.step (variance.event tagged) = .ok (b.push (.argument variance tagged)) := by
  cases tagged with
  | true =>
    obtain rfl := h rfl
    rfl
  | false => rfl

mutual

/-- The events of a type leave the builder as the complete type does. -/
theorem buildAll_type (b : Builder) (level : Nat) :
    ∀ t : TypeTree, t.TagsExact → b.buildAll (t.deliveries level) = b.complete t
  | .base code, _ => buildAll_singleton b
  | .typeVariable name, _ => buildAll_singleton b
  | .array element, h => by
    rw [TypeTree.deliveries, buildAll_cons_ok (c := b.push .array) rfl,
      buildAll_type _ (level + 1) element h, push_array_complete]
  | .classType (.mk name as) inners, ⟨houter, hinners⟩ => by
    rw [TypeTree.deliveries, Segment.deliveries, List.cons_append,
      buildAll_cons_ok (c := b.push (.openClass { name })) rfl,
      buildAll_append_ok (buildAll_arguments b { name } level as houter),
      buildAll_append_ok (buildAll_segments b _ level inners hinners), buildAll_singleton]
    have hsegments := OpenClass.segments_enterAll (({ name } : OpenClass).addAll as) inners
    rw [OpenClass.segments_new] at hsegments
    exact congrArg b.complete (OpenClass.close_eq hsegments)

theorem buildAll_segments (b : Builder) (c : OpenClass) (level : Nat) :
    ∀ ss : List Segment, segmentsTagExact ss →
      (b.push (.openClass c)).buildAll (segmentDeliveries level ss) =
        .ok (b.push (.openClass (c.enterAll ss)))
  | [], _ => rfl
  | .mk name as :: ss, ⟨hs, hss⟩ => by
    rw [segmentDeliveries, Segment.deliveries, List.cons_append,
      buildAll_cons_ok (c := b.push (.openClass (c.enter name))) rfl,
      buildAll_append_ok (buildAll_arguments b (c.enter name) level as hs),
      buildAll_segments b _ level ss hss]
    rfl

theorem buildAll_arguments (b : Builder) (c : OpenClass) (level : Nat) :
    ∀ as : List Argument, argumentsTagExact as →
      (b.push (.openClass c)).buildAll (argumentDeliveries level as) =
        .ok (b.push (.openClass (c.addAll as)))
  | [], _ => rfl
  | a :: as, ⟨ha, has⟩ => by
    rw [argumentDeliveries, buildAll_append_ok (buildAll_argument b c level a ha),
      buildAll_arguments b _ level as has]
    rfl

theorem buildAll_argument (b : Builder) (c : OpenClass) (level : Nat) :
    ∀ a : Argument, a.TagsExact →
      (b.push (.openClass c)).buildAll (a.deliveries level) =
        .ok (b.push (.openClass (c.add a)))
  | .unbounded, _ => rfl
  | .bounded variance bound tagged, ⟨htag, hbound⟩ => by
    rw [Argument.deliveries_bounded, buildAll_cons_ok (step_argumentEvent _ htag),
      buildAll_type _ (level + 1) bound hbound, push_argument_complete]

end

/-! ## Building a signature -/

/-- A type that is announced for a role is stored where the role says. -/
theorem buildAll_announced {b b' b'' : Builder} {t : TypeTree} (h : t.TagsExact)
    (hstep : b.step event = .ok (b'.push (.role role))) (hstore : b'.store t role = .ok b'') :
    b.buildAll (announced event t) = .ok b'' := by
  rw [announced, buildAll_cons_ok hstep, buildAll_type _ 1 t h]
  exact hstore

/-- Types that are announced alike are taken in one by one, newest first. -/
theorem buildAll_list (event : Event) {S : List TypeTree → Builder}
    (h : ∀ acc t, t.TagsExact → (S acc).buildAll (announced event t) = .ok (S (t :: acc)))
    (ts : List TypeTree) (hts : ∀ t ∈ ts, t.TagsExact) (acc : List TypeTree) :
    (S acc).buildAll (ts.flatMap (announced event)) = .ok (S (ts.reverse ++ acc)) := by
  induction ts generalizing acc with
  | nil => rfl
  | cons t ts ih =>
    rw [List.flatMap_cons, buildAll_append_ok (h acc t (hts t (by simp))),
      ih (fun t ht => hts t (by simp [ht])), List.reverse_cons, List.append_assoc,
      List.singleton_append]

theorem settle_comp_settle : settle ∘ settle = id := by
  funext f
  simp [settle]

theorem buildAll_formal (b : Builder) {f : Formal} (h : f.TagsExact) :
    b.buildAll f.deliveries = .ok { b with formals := settle f :: b.formals } := by
  obtain ⟨name, bound, bounds⟩ := f
  have hbound : ({ b with formals := { name } :: b.formals } : Builder).buildAll
      (bound.toList.flatMap (announced .classBound)) =
        .ok { b with formals := { name, classBound := bound } :: b.formals } := by
    cases bound with
    | none => rfl
    | some t =>
      rw [Option.toList_some, List.flatMap_singleton]
      exact buildAll_announced (h.classBound t rfl) rfl rfl
  have hbounds := buildAll_list .interfaceBound
    (S := fun acc => { b with formals := ⟨name, bound, acc⟩ :: b.formals })
    (fun _ t ht => buildAll_announced ht rfl rfl) bounds h.interfaceBounds []
  rw [List.append_nil] at hbounds
  rw [Formal.deliveries, buildAll_cons_ok rfl, buildAll_append_ok hbound, hbounds]
  rfl

/-- Formal type parameters are kept newest first, each with its interface bounds newest first. -/
theorem buildAll_formals (b : Builder) {fs : List Formal} (h : ∀ f ∈ fs, f.TagsExact) :
    b.buildAll (fs.flatMap Formal.deliveries) =
      .ok { b with formals := (fs.map settle).reverse ++ b.formals } := by
  induction fs generalizing b with
  | nil => rfl
  | cons f fs ih =>
    rw [List.flatMap_cons, buildAll_append_ok (buildAll_formal b (h f (by simp))),
      ih _ fun f hf => h f (by simp [hf])]
    simp

/-- The builder that has seen the formal type parameters and nothing else. -/
def afterFormals (fs : List Formal) : Builder := { formals := (fs.map settle).reverse }

theorem buildAll_afterFormals {fs : List Formal} (h : ∀ f ∈ fs, f.TagsExact) :
    ({} : Builder).buildAll (fs.flatMap Formal.deliveries) = .ok (afterFormals fs) := by
  rw [buildAll_formals {} h, List.append_nil]
  rfl

/-- After the events of a class the builder holds its parts, lists newest first. -/
theorem buildAll_classTree {t : ClassTree} (h : t.TagsExact) :
    ({} : Builder).buildAll t.deliveries =
      .ok { afterFormals t.formals with
            shape := .ofClass
            superclass := some t.superclass
            interfaces := t.interfaces.reverse } := by
  have hsuperclass : (afterFormals t.formals).buildAll (announced .superclass t.superclass) =
      .ok { afterFormals t.formals with shape := .ofClass, superclass := some t.superclass } :=
    buildAll_announced h.superclass rfl rfl
  have hinterfaces := buildAll_list .interface
    (S := fun acc => { afterFormals t.formals with
      shape := .ofClass, superclass := some t.superclass, interfaces := acc })
    (fun _ t ht => buildAll_announced ht rfl rfl) t.interfaces h.interfaces []
  rw [List.append_nil] at hinterfaces
  rw [ClassTree.deliveries, List.append_assoc, buildAll_append_ok (buildAll_afterFormals h.formals),
    buildAll_append_ok hsuperclass]
  exact hinterfaces

/-- The first parameter, or for want of one the result, makes the signature one of a method. -/
theorem buildAll_parameters_shape (b : Builder) (h : b.shape = .unknown) (t : MethodTree) :
    b.buildAll (t.parameters.flatMap (announced .parameter) ++ announced .result t.result) =
      ({ b with shape := .ofMethod } : Builder).buildAll
        (t.parameters.flatMap (announced .parameter) ++ announced .result t.result) := by
  have hstep : ∀ event, event = .parameter ∨ event = .result →
      b.step event = ({ b with shape := .ofMethod } : Builder).step event := by
    rintro _ (rfl | rfl) <;> simp [step, enter, h]
  cases t.parameters with
  | nil =>
    simp only [List.flatMap_nil, List.nil_append, announced, buildAll_cons]
    rw [hstep _ (.inr rfl)]
  | cons p ps =>
    simp only [List.flatMap_cons, announced, List.cons_append, buildAll_cons]
    rw [hstep _ (.inl rfl)]

theorem buildAll_methodTree {t : MethodTree} (h : t.TagsExact) :
    ({} : Builder).buildAll t.deliveries =
      .ok { afterFormals t.formals with
            shape := .ofMethod
            parameters := t.parameters.reverse
            result := some t.result
            exceptions := t.exceptions.reverse } := by
  have hparameters := buildAll_list .parameter
    (S := fun acc => { afterFormals t.formals with shape := .ofMethod, parameters := acc })
    (fun _ t ht => buildAll_announced ht rfl rfl) t.parameters h.parameters []
  rw [List.append_nil] at hparameters
  have hresult : ({ afterFormals t.formals with
      shape := .ofMethod, parameters := t.parameters.reverse } : Builder).buildAll
        (announced .result t.result) =
      .ok { afterFormals t.formals with
            shape := .ofMethod
            parameters := t.parameters.reverse
            result := some t.result } :=
    buildAll_announced h.result rfl rfl
  have hexceptions := buildAll_list .exception
    (S := fun acc => { afterFormals t.formals with
      shape := .ofMethod
      parameters := t.parameters.reverse
      result := some t.result
      exceptions := acc })
    (fun _ t ht => buildAll_announced ht rfl rfl) t.exceptions h.exceptions []
  rw [List.append_nil] at hexceptions
  have hopen := (buildAll_parameters_shape (afterFormals t.formals) rfl t).trans
    (buildAll_append_ok hparameters |>.trans hresult)
  rw [MethodTree.deliveries, List.append_assoc, List.append_assoc,
    buildAll_append_ok (buildAll_afterFormals h.formals),
    ← List.append_assoc]
  exact (buildAll_append_ok hopen).trans hexceptions

end Builder

/-- A builder that is given the events of a tree ends with that tree. -/
theorem Document.ofEvents_events {d : Document} (h : d.TagsExact) :
    Document.ofEvents d.events = .ok d := by
  cases d with
  | ofClass tree =>
    have hb : ({} : Builder).build (Document.ofClass tree).events = _ :=
      Builder.buildAll_classTree h
    simp [Document.ofEvents, hb, Builder.finish, Builder.afterFormals, Builder.settle_comp_settle]
  | ofMethod tree =>
    have hb : ({} : Builder).build (Document.ofMethod tree).events = _ :=
      Builder.buildAll_methodTree h
    simp [Document.ofEvents, hb, Builder.finish, Builder.afterFormals, Builder.settle_comp_settle]
  | ofType tree =>
    have hb : ({} : Builder).build (Document.ofType tree).events = _ :=
      Builder.buildAll_type {} 0 tree h
    simp [Document.ofEvents, hb, Builder.finish, Builder.complete, Builder.deliver]

end ClassUnit.Signature
