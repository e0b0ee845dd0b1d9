import Mathlib.Tactic.Abel
import ClassUnit.Proofs.Signature.Bag
import ClassUnit.Proofs.Signature.Building

/-! # Conservation of events

What a builder holds, on its frames and in its lists, is at any time the events that it has been
given, whatever their order (`Builder.held_build`). A document takes over all that its builder
holds but for one thing: a bare type that stands there when a class or a method signature begins
is dropped without notice. So the events of a document are those that were given, up to order,
exactly where no such type was given (`Builder.perm_events_iff`). -/

namespace ClassUnit.Signature

namespace Builder

@[simp] theorem formalsBag_settle (fs : List Formal) :
    formalsBag (fs.map settle) = formalsBag fs := by
  induction fs with
  | nil => rfl
  | cons f fs ih =>
    rw [List.map_cons, formalsBag_cons, formalsBag_cons, ih]
    simp [Formal.bag, settle]

/-! ## Events that a builder holds -/

def Role.event : Role → Event
  | .classBound => .classBound
  | .interfaceBound => .interfaceBound
  | .superclass => .superclass
  | .interface => .interface
  | .parameter => .parameter
  | .result => .result
  | .exception => .exception

/-- The events of an open class type: those of the class type without its end. -/
def OpenClass.bag (c : OpenClass) : Multiset Event :=
  match c.segments with
  | [] => 0
  | outer :: inners => outer.bag .classType + segmentsBag inners

namespace OpenClass

theorem segments_eq (c : OpenClass) : c.segments = c.earlier.reverse ++ [c.innermost] := by
  rw [segments, List.reverse_cons]

theorem bag_add (c : OpenClass) (a : Argument) : (c.add a).bag = c.bag + a.bag := by
  have hinnermost : ∀ announce,
      (c.add a).innermost.bag announce = c.innermost.bag announce + a.bag := by
    intro announce
    simp [add, innermost, Segment.bag, argumentsBag_append, argumentsBag]
  have hearlier : (c.add a).earlier = c.earlier := rfl
  rw [bag, bag, segments_eq, segments_eq, hearlier]
  cases c.earlier.reverse with
  | nil => simp [hinnermost, segmentsBag]
  | cons s ss => simp [hinnermost, segmentsBag_append, segmentsBag, add_assoc]

theorem bag_enter (c : OpenClass) (name : String) :
    (c.enter name).bag = c.bag + {.innerClass name} := by
  have hsegments : (c.enter name).segments = c.segments ++ [.mk name []] := by
    simp [segments, enter, innermost]
  rw [bag, bag, hsegments, segments_eq]
  cases c.earlier.reverse with
  | nil => simp [segmentsBag, Segment.bag, argumentsBag]
  | cons s ss => simp [segmentsBag_append, segmentsBag, Segment.bag, argumentsBag, add_assoc]

theorem bag_close (c : OpenClass) : c.close.bag = c.bag + {.close} := by
  cases hsegments : c.segments with
  | nil => simp [segments_eq] at hsegments
  | cons outer inners => rw [close_eq hsegments, TypeTree.bag, bag, hsegments]

end OpenClass

def Frame.bag : Frame → Multiset Event
  | .role r => {r.event}
  | .array => {.array}
  | .argument variance tagged => {variance.event tagged}
  | .openClass c => c.bag

def framesBag (fs : List Frame) : Multiset Event := (fs.map Frame.bag).sum

@[simp] theorem framesBag_nil : framesBag [] = 0 := rfl

@[simp] theorem framesBag_cons (f : Frame) (fs : List Frame) :
    framesBag (f :: fs) = f.bag + framesBag fs := by
  rw [framesBag, List.map_cons, List.sum_cons, framesBag]

/-- The events of the types that are complete and stored. -/
def stored (b : Builder) : Multiset Event :=
  formalsBag b.formals + announcedBag .superclass b.superclass.toList +
    announcedBag .interface b.interfaces + announcedBag .parameter b.parameters +
    announcedBag .result b.result.toList + announcedBag .exception b.exceptions +
    (b.bare.toList.map TypeTree.bag).sum

/-- All the events that a builder holds. -/
def held (b : Builder) : Multiset Event := framesBag b.frames + b.stored

variable {b c : Builder}

/-! ## What a builder can do -/

/-- What becomes of a builder that puts a type where its role says. -/
def Stores (b : Builder) (t : TypeTree) (c : Builder) : Role → Prop
  | .classBound => ∃ f rest, b.formals = f :: rest ∧ f.classBound = none ∧
      c = { b with formals := { f with classBound := some t } :: rest }
  | .interfaceBound => ∃ f rest, b.formals = f :: rest ∧
      c = { b with formals := { f with interfaceBounds := t :: f.interfaceBounds } :: rest }
  | .superclass => b.superclass = none ∧ c = { b with superclass := some t }
  | .interface => c = { b with interfaces := t :: b.interfaces }
  | .parameter => c = { b with parameters := t :: b.parameters }
  | .result => b.result = none ∧ c = { b with result := some t }
  | .exception => c = { b with exceptions := t :: b.exceptions }

theorem stores_of_store {t : TypeTree} {role : Role} (h : b.store t role = .ok c) :
    b.Stores t c role := by
  unfold store at h
  cases role with
  | classBound =>
    simp only at h
    split at h
    · cases h
    · rename_i f rest hformals
      split at h
      · cases h
      · rename_i hbound
        exact ⟨f, rest, hformals, hbound, (Except.ok.inj h).symm⟩
  | interfaceBound =>
    simp only at h
    split at h
    · cases h
    · rename_i f rest hformals
      exact ⟨f, rest, hformals, (Except.ok.inj h).symm⟩
  | superclass | result =>
    simp only at h
    split at h
    · cases h
    · rename_i hnone
      exact ⟨hnone, (Except.ok.inj h).symm⟩
  | interface | parameter | exception => exact (Except.ok.inj h).symm

/-- A role brings its shape along, where it has one. -/
theorem exists_of_enter {shape : Shape} {role : Role} (h : b.enter shape role = .ok c) :
    ∃ s, (s = b.shape ∨ b.shape = .unknown) ∧ (shape = .unknown ∨ shape = s) ∧
      c = { b with shape := s }.push (.role role) := by
  unfold enter at h
  split at h
  · rename_i hunknown
    exact ⟨b.shape, .inl rfl, .inl hunknown, (Except.ok.inj h).symm⟩
  · split at h
    · rename_i hshape
      exact ⟨shape, hshape.symm.imp Eq.symm id, .inr rfl, (Except.ok.inj h).symm⟩
    · cases h

/-- The bound of an argument becomes part of the class type below. -/
theorem exists_of_deliver_argument {fs : List Frame} {t : TypeTree}
    (h : b.deliver (.argument variance tagged :: fs) t = .ok c) :
    ∃ o rest, fs = .openClass o :: rest ∧
      c = { b with frames := .openClass (o.add (.bounded variance t tagged)) :: rest } := by
  match fs with
  | [] | .role _ :: _ | .array :: _ | .argument _ _ :: _ => cases h
  | .openClass o :: rest => exact ⟨o, rest, rfl, (Except.ok.inj h).symm⟩

/-- A type outside of all frames is kept as a bare one, if it is the first thing that counts. -/
theorem bare_of_deliver_nil {t : TypeTree} (h : b.deliver [] t = .ok c) :
    b.bare = none ∧ b.shape = .unknown ∧ c = { b with frames := [], bare := some t } := by
  simp only [deliver] at h
  split at h
  · cases h
  · rename_i hbare
    obtain ⟨hnone, hshape⟩ : b.bare = none ∧ b.shape = .unknown := by simpa using hbare
    exact ⟨hnone, hshape, (Except.ok.inj h).symm⟩

/-- What acts on the class type on top of the frames finds one there. -/
theorem exists_openClass {act : OpenClass → List Frame → Except Breach Builder}
    (h : (match b.frames with | .openClass o :: rest => act o rest | _ => .error breach) = .ok c) :
    ∃ o rest, b.frames = .openClass o :: rest ∧ act o rest = .ok c := by
  split at h
  · rename_i o rest hframes
    exact ⟨o, rest, hframes, h⟩
  · cases h

theorem build_cons {event : Event} {events : List Event} :
    b.build (event :: events) = .ok c ↔ ∃ b', b.step event = .ok b' ∧ b'.build events = .ok c := by
  rw [build, List.foldlM_cons]
  cases b.step event with
  | error breach =>
    constructor
    · intro h
      cases h
    · rintro ⟨_, ⟨⟩, _⟩
  | ok b' =>
    constructor
    · exact fun h => ⟨b', rfl, h⟩
    · rintro ⟨_, ⟨⟩, h⟩
      exact h

/-! ## Every event is held -/

@[simp] theorem held_push (b : Builder) (f : Frame) : (b.push f).held = b.held + f.bag := by
  have hstored : (b.push f).stored = b.stored := rfl
  rw [held, held, hstored, push, framesBag_cons]
  abel

theorem held_of_stores {t : TypeTree} {role : Role} (h : b.Stores t c role) :
    c.held = b.held + {role.event} + t.bag := by
  cases role with
  | classBound =>
    obtain ⟨f, rest, hformals, hbound, rfl⟩ := h
    simp only [held, stored, hformals, formalsBag_cons, Formal.bag, hbound, Role.event,
      Option.toList_some, Option.toList_none, announcedBag_cons, announcedBag_nil]
    abel
  | interfaceBound =>
    obtain ⟨f, rest, hformals, rfl⟩ := h
    simp only [held, stored, hformals, formalsBag_cons, Formal.bag, Role.event, announcedBag_cons]
    abel
  | superclass | result =>
    obtain ⟨hnone, rfl⟩ := h
    simp only [held, stored, hnone, Role.event, Option.toList_some, Option.toList_none,
      announcedBag_cons, announcedBag_nil]
    abel
  | interface | parameter | exception =>
    obtain rfl := h
    simp only [held, stored, Role.event, announcedBag_cons]
    abel

theorem held_frame (b : Builder) (f : Frame) (rest : List Frame) :
    ({ b with frames := f :: rest } : Builder).held =
      ({ b with frames := rest } : Builder).held + f.bag :=
  held_push { b with frames := rest } f

/-- A type that is complete takes the frames that wait for it along. -/
theorem held_deliver {fs : List Frame} {t : TypeTree} (h : b.deliver fs t = .ok c) :
    c.held = b.stored + framesBag fs + t.bag := by
  induction fs generalizing t with
  | nil =>
    obtain ⟨hnone, -, rfl⟩ := bare_of_deliver_nil h
    simp [held, stored, hnone]
  | cons f fs ih =>
    -- Arrays hand the type on; every other frame that takes it ends the recursion.
    have hstored : ∀ frames, ({ b with frames } : Builder).stored = b.stored := fun _ => rfl
    cases f with
    | array =>
      rw [ih h, framesBag_cons, TypeTree.bag, Frame.bag]
      abel
    | role role =>
      rw [held_of_stores (stores_of_store h), held, hstored, framesBag_cons, Frame.bag]
      abel
    | openClass o => cases h
    | argument variance tagged =>
      obtain ⟨o, rest, rfl, rfl⟩ := exists_of_deliver_argument h
      rw [held_frame, held, hstored, framesBag_cons, framesBag_cons]
      simp only [Frame.bag, OpenClass.bag_add, Argument.bag]
      abel

theorem held_complete {t : TypeTree} (h : b.complete t = .ok c) : c.held = b.held + t.bag := by
  rw [held_deliver h, held]
  abel

theorem held_enter {shape : Shape} {role : Role} (h : b.enter shape role = .ok c) :
    c.held = b.held + {role.event} := by
  obtain ⟨s, -, -, rfl⟩ := exists_of_enter h
  exact held_push ..

/-- The frame on top may be exchanged for one that holds more. -/
theorem held_exchange {f g : Frame} {rest : List Frame} {more : Multiset Event}
    (hframes : b.frames = f :: rest) (hbag : g.bag = f.bag + more) :
    ({ b with frames := g :: rest } : Builder).held = b.held + more := by
  have hb : b.held = ({ b with frames := rest } : Builder).held + f.bag := by
    rw [← held_frame, ← hframes]
  rw [held_frame, hbag, hb, add_assoc]

/-- One event is one more that is held. -/
theorem held_step {event : Event} (h : b.step event = .ok c) : c.held = b.held + {event} := by
  cases event with
  | formal name =>
    cases h
    simp only [held, stored, formalsBag_cons, Formal.bag, Option.toList_none, announcedBag_nil]
    abel
  | classBound | interfaceBound | superclass | interface | parameter | result | exception =>
    exact held_enter h
  | base | typeVariable => exact held_complete h
  | array | classType | argument | tagged =>
    cases h
    exact held_push ..
  | innerClass name =>
    obtain ⟨o, rest, hframes, ⟨⟩⟩ := exists_openClass h
    exact held_exchange hframes (OpenClass.bag_enter o name)
  | unbounded =>
    obtain ⟨o, rest, hframes, ⟨⟩⟩ := exists_openClass h
    exact held_exchange hframes (OpenClass.bag_add o .unbounded)
  | close =>
    obtain ⟨o, rest, hframes, hcomplete⟩ := exists_openClass h
    have hopen : b.held = ({ b with frames := rest } : Builder).held + o.bag := by
      rw [← Frame.bag, ← held_frame, ← hframes]
    rw [held_complete hcomplete, OpenClass.bag_close, hopen, add_assoc]

theorem held_build {events : List Event} (h : b.build events = .ok c) :
    c.held = b.held + ↑events := by
  induction events generalizing b with
  | nil =>
    cases h
    simp
  | cons event events ih =>
    obtain ⟨b', hstep, hbuild⟩ := build_cons.1 h
    rw [ih hbuild, held_step hstep, ← Multiset.cons_coe, ← Multiset.singleton_add, add_assoc]

/-! ## What a document takes over -/

/-- The shape of the signatures that a role belongs to; bounds belong to both. -/
def Role.shape : Role → Shape
  | .classBound | .interfaceBound => .unknown
  | .superclass | .interface => .ofClass
  | .parameter | .result | .exception => .ofMethod

/-- A role may be filled in a signature of the given shape. -/
def Role.Fits (shape : Shape) (role : Role) : Prop := role.shape = .unknown ∨ role.shape = shape

theorem Role.Fits.ofClass {role : Role} {shape : Shape} (h : role.Fits shape)
    (hrole : role.shape = .ofClass) : shape = .ofClass := by
  simpa [Role.Fits, hrole, eq_comm] using h

theorem Role.Fits.ofMethod {role : Role} {shape : Shape} (h : role.Fits shape)
    (hrole : role.shape = .ofMethod) : shape = .ofMethod := by
  simpa [Role.Fits, hrole, eq_comm] using h

/-- Nothing is held that a signature of the shape has no place for, but perhaps a bare type. -/
structure Fitting (b : Builder) : Prop where
  frames : ∀ role, .role role ∈ b.frames → role.Fits b.shape
  ofClass : b.shape ≠ .ofClass → b.superclass = none ∧ b.interfaces = []
  ofMethod : b.shape ≠ .ofMethod → b.parameters = [] ∧ b.result = none ∧ b.exceptions = []

namespace Fitting

theorem empty : ({} : Builder).Fitting := ⟨by simp, by simp, by simp⟩

theorem framesOf (h : b.Fitting) {fs : List Frame}
    (hfs : ∀ role, .role role ∈ fs → .role role ∈ b.frames) :
    ({ b with frames := fs } : Builder).Fitting :=
  ⟨fun role hrole => h.frames role (hfs role hrole), h.ofClass, h.ofMethod⟩

theorem push (h : b.Fitting) {f : Frame} (hf : ∀ role, f = .role role → role.Fits b.shape) :
    (b.push f).Fitting := by
  refine ⟨fun role hrole => ?_, h.ofClass, h.ofMethod⟩
  rcases List.mem_cons.1 hrole with hrole | hrole
  · exact hf role hrole.symm
  · exact h.frames role hrole

theorem enter (h : b.Fitting) (role : Role) (henter : b.enter role.shape role = .ok c) :
    c.Fitting := by
  obtain ⟨s, hs, hrole, rfl⟩ := exists_of_enter henter
  have hb : ({ b with shape := s } : Builder).Fitting := by
    rcases hs with rfl | hunknown
    · exact h
    · -- Until the shape is known, no role but a bound can be open.
      refine ⟨fun r hr => .inl ?_, fun _ => h.ofClass ?_, fun _ => h.ofMethod ?_⟩
      · exact (h.frames r hr).elim id (·.trans hunknown)
      · simp [hunknown]
      · simp [hunknown]
  exact hb.push fun r hr => by cases hr; exact hrole

theorem stores {role : Role} {t : TypeTree} (h : b.Fitting) (hrole : role.Fits b.shape)
    (hstores : b.Stores t c role) : c.Fitting := by
  cases role with
  | classBound =>
    obtain ⟨f, rest, -, -, rfl⟩ := hstores
    exact ⟨h.frames, h.ofClass, h.ofMethod⟩
  | interfaceBound =>
    obtain ⟨f, rest, -, rfl⟩ := hstores
    exact ⟨h.frames, h.ofClass, h.ofMethod⟩
  | superclass =>
    obtain ⟨-, rfl⟩ := hstores
    exact ⟨h.frames, fun hne => absurd (hrole.ofClass rfl) hne, h.ofMethod⟩
  | interface =>
    obtain rfl := hstores
    exact ⟨h.frames, fun hne => absurd (hrole.ofClass rfl) hne, h.ofMethod⟩
  | result =>
    obtain ⟨-, rfl⟩ := hstores
    exact ⟨h.frames, h.ofClass, fun hne => absurd (hrole.ofMethod rfl) hne⟩
  | parameter | exception =>
    obtain rfl := hstores
    exact ⟨h.frames, h.ofClass, fun hne => absurd (hrole.ofMethod rfl) hne⟩

theorem deliver {fs : List Frame} {t : TypeTree} (h : b.Fitting)
    (hfs : ∀ role, .role role ∈ fs → .role role ∈ b.frames) (hdeliver : b.deliver fs t = .ok c) :
    c.Fitting := by
  induction fs generalizing t with
  | nil =>
    obtain ⟨-, -, rfl⟩ := bare_of_deliver_nil hdeliver
    exact ⟨by simp, h.ofClass, h.ofMethod⟩
  | cons f fs ih =>
    have hrest : ∀ role, .role role ∈ fs → .role role ∈ b.frames :=
      fun role hrole => hfs role (List.mem_cons_of_mem _ hrole)
    cases f with
    | array => exact ih hrest hdeliver
    | role role =>
      have hrole := h.frames role (hfs role List.mem_cons_self)
      exact (h.framesOf hrest).stores hrole (stores_of_store hdeliver)
    | openClass o => cases hdeliver
    | argument variance tagged =>
      obtain ⟨o, rest, rfl, rfl⟩ := exists_of_deliver_argument hdeliver
      exact h.framesOf (by simpa using hrest)

theorem exchange (h : b.Fitting) {f g : Frame} {rest : List Frame} (hframes : b.frames = f :: rest)
    (hg : ∀ role, g ≠ .role role) : ({ b with frames := g :: rest } : Builder).Fitting := by
  refine h.framesOf fun role hrole => ?_
  rcases List.mem_cons.1 hrole with hrole | hrole
  · exact absurd hrole.symm (hg role)
  · rw [hframes]
    exact List.mem_cons_of_mem _ hrole

theorem step {event : Event} (h : b.Fitting) (hstep : b.step event = .ok c) : c.Fitting := by
  cases event with
  | formal name =>
    cases hstep
    exact ⟨h.frames, h.ofClass, h.ofMethod⟩
  | classBound => exact h.enter .classBound hstep
  | interfaceBound => exact h.enter .interfaceBound hstep
  | superclass => exact h.enter .superclass hstep
  | interface => exact h.enter .interface hstep
  | parameter => exact h.enter .parameter hstep
  | result => exact h.enter .result hstep
  | exception => exact h.enter .exception hstep
  | base | typeVariable => exact h.deliver (fun _ hrole => hrole) hstep
  | array | classType | argument | tagged =>
    cases hstep
    exact h.push (by simp)
  | innerClass name =>
    obtain ⟨o, rest, hframes, ⟨⟩⟩ := exists_openClass hstep
    exact h.exchange hframes (by simp)
  | unbounded =>
    obtain ⟨o, rest, hframes, ⟨⟩⟩ := exists_openClass hstep
    exact h.exchange hframes (by simp)
  | close =>
    obtain ⟨o, rest, hframes, hcomplete⟩ := exists_openClass hstep
    have hrest : ({ b with frames := rest } : Builder).Fitting :=
      h.framesOf fun role hrole => hframes ▸ List.mem_cons_of_mem _ hrole
    exact hrest.deliver (fun _ hrole => hrole) hcomplete

theorem build {events : List Event} (h : b.Fitting) (hbuild : b.build events = .ok c) :
    c.Fitting := by
  induction events generalizing b with
  | nil =>
    cases hbuild
    exact h
  | cons event events ih =>
    obtain ⟨b', hstep, hbuild⟩ := build_cons.1 hbuild
    exact ih (h.step hstep) hbuild

end Fitting

/-- The bare type that a class or a method signature has no place for. -/
def surplus (b : Builder) : List TypeTree := if b.shape = .unknown then [] else b.bare.toList

/-- A document takes over what its builder holds, except for a bare type where it is none. -/
theorem held_finish (h : b.Fitting) {d : Document} (hfinish : b.finish = .ok d) :
    b.held = bag d.deliveries + (b.surplus.map TypeTree.bag).sum := by
  unfold finish at hfinish
  split at hfinish
  · cases hfinish
  · rename_i hframes
    have hnone : b.frames = [] := by simpa using hframes
    simp only at hfinish
    split at hfinish
    · rename_i hshape
      obtain ⟨hparameters, hresult, hexceptions⟩ := h.ofMethod (by simp [hshape])
      split at hfinish
      · cases hfinish
      · rename_i superclass hsuperclass
        cases hfinish
        simp [held, stored, surplus, hnone, hshape, hsuperclass, hparameters, hresult, hexceptions,
          Document.deliveries, ClassTree.deliveries, bag_announced, bag_flatMap_formal,
          bag_flatMap_announced, add_assoc]
    · rename_i hshape
      obtain ⟨hsuperclass, hinterfaces⟩ := h.ofClass (by simp [hshape])
      split at hfinish
      · cases hfinish
      · rename_i result hresult
        cases hfinish
        simp [held, stored, surplus, hnone, hshape, hsuperclass, hinterfaces, hresult,
          Document.deliveries, MethodTree.deliveries, bag_announced, bag_flatMap_formal,
          bag_flatMap_announced, add_assoc]
    · rename_i hshape
      obtain ⟨hsuperclass, hinterfaces⟩ := h.ofClass (by simp [hshape])
      obtain ⟨hparameters, hresult, hexceptions⟩ := h.ofMethod (by simp [hshape])
      split at hfinish
      · cases hfinish
      · rename_i hformals
        split at hfinish
        · cases hfinish
        · rename_i tree hbare
          cases hfinish
          simp at hformals
          simp [held, stored, surplus, hnone, hshape, hsuperclass, hinterfaces, hparameters,
            hresult, hexceptions, hformals, hbare, Document.deliveries, bag_type]

/-- The events that make up a document are those of the document and of the bare type that was
given in front of it, each as often as it was given. They are those of the document alone exactly
if there is no such type. -/
theorem perm_events_iff {events : List Event} {d : Document}
    (hbuild : ({} : Builder).build events = .ok b) (hfinish : b.finish = .ok d) :
    events.Perm (d.events ++ b.surplus.flatMap TypeTree.events) ∧
      (events.Perm d.events ↔ b.surplus = []) := by
  have hperm : events.Perm (d.events ++ b.surplus.flatMap TypeTree.events) := by
    have hheld : b.held = ↑events := by
      rw [held_build hbuild]
      simp [held, stored]
    rw [← Multiset.coe_eq_coe, ← hheld, held_finish (Fitting.empty.build hbuild) hfinish,
      ← Multiset.coe_add, bag_flatMap_events]
    rfl
  refine ⟨hperm, fun h => ?_, fun h => ?_⟩
  · have hlength := (h.symm.trans hperm).length_eq
    cases hsurplus : b.surplus with
    | nil => rfl
    | cons t ts =>
      have hpos := List.length_pos_iff.2 (events_ne_nil t)
      simp only [hsurplus, List.flatMap_cons, List.length_append] at hlength
      omega
  · simpa [h] using hperm

/-- Formal type parameters count as given, however late. -/
theorem perm_events_iff_late_formal :
    ∃ b d, ({} : Builder).build [.superclass, .array, .formal "T", .base 'I'] = .ok b ∧
      b.finish = .ok d ∧ [.superclass, .array, .formal "T", .base 'I'].Perm d.events :=
  ⟨_, _, rfl, rfl, (perm_events_iff rfl rfl).2.2 rfl⟩

/-- A bare type is forgotten as soon as a class or a method signature begins. -/
theorem not_perm_events_of_bare :
    Document.ofEvents [.base 'I', .superclass, .base 'V'] = .ok (.ofClass ⟨[], .base 'V', []⟩) ∧
      ¬[.base 'I', .superclass, .base 'V'].Perm (Document.ofClass ⟨[], .base 'V', []⟩).events :=
  ⟨rfl, fun h => absurd h.length_eq (by decide)⟩

end Builder

end ClassUnit.Signature
