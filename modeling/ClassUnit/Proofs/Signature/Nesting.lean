import ClassUnit.Proofs.Signature.RoundTrip
import ClassUnit.Proofs.Signature.Steps

/-! # How deep signatures nest

The level that a listener can have is bounded, whatever the text is (`Reading.levels_bounded`). Where a
type is about to be read, its depth is looked at, and the level goes with the depth. In between,
the arrays of a row are announced while only their number is looked at, so a text that is refused
may have come that much deeper than one that is accepted. -/

namespace ClassUnit.Signature
open Reader

variable {ground : Nat} {place : Place} {context : Context}

/-! ## Levels along a reading -/

namespace Reader

/-- A type whose depth has been looked at. Types begin at the level `ground`. -/
structure Place.Bounded (ground : Nat) (place : Place) : Prop where
  level_le : place.level ≤ ground + place.depth
  depth_le : place.depth ≤ maxNesting

/-- Behind a bare type there is no other that the root listener would announce. -/
structure Context.Bounded (ground : Nat) (context : Context) : Prop where
  slot : context.slot = .whole ∨ 0 < ground
  enclosing : ∀ place ∈ context.enclosing, place.Bounded ground

def State.Bounded (ground : Nat) : State → Prop
  | .complete => True
  | .type place context | .segmentName _ place _ _ context | .arguments place _ context
  | .argumentsEnd place context => place.Bounded ground ∧ context.Bounded ground
  | .element place dimensions context =>
    (place.level ≤ ground + place.depth + 1 ∧ place.depth < maxNesting + dimensions ∧
      dimensions ≤ maxDimensions) ∧ context.Bounded ground
  | .variableName level _ _ context => level ≤ ground + maxNesting ∧ context.Bounded ground
  | .start | .formalName .. | .formalBounds | .moreBounds | .body | .parameters | .interfaces
  | .exceptions => 0 < ground

theorem Place.Bounded.le (h : place.Bounded ground) : place.level ≤ ground + maxNesting :=
  h.level_le.trans (Nat.add_le_add_left h.depth_le ground)

theorem Context.Bounded.within (h : context.Bounded ground) (hplace : place.Bounded ground) :
    (context.within place).Bounded ground :=
  ⟨h.slot, List.forall_mem_cons.2 ⟨hplace, h.enclosing⟩⟩

theorem Context.Bounded.after (h : context.Bounded ground) : context.after.Bounded ground := by
  obtain ⟨slot, enclosing⟩ := context
  cases enclosing with
  | cons place enclosing =>
    obtain ⟨hplace, henclosing⟩ := List.forall_mem_cons.1 h.enclosing
    exact ⟨hplace, h.slot, henclosing⟩
  | nil =>
    have hslot : slot = .whole ∨ 0 < ground := h.slot
    cases slot with
    | whole => trivial
    | bound | supertype | parameter | result => exact hslot.resolve_left (by decide)

/-- The events of a step reach no level beyond the limits, and the state behind it keeps to them. -/
abbrev Step.Bounded (ground : Nat) (step : Step) : Prop :=
  step.Satisfies (·.level ≤ ground + maxNesting + maxDimensions) (State.Bounded ground)
    fun _ => True

namespace Step

/-- At the root, and where a depth has been looked at, there is room to spare. -/
theorem Bounded.after {step : Step} (h : step.Bounded ground) (hd : d.level ≤ ground + maxNesting) :
    (step.after d).Bounded ground :=
  Satisfies.after (hd.trans (Nat.le_add_right ..)) h

theorem expectType_bounded (hplace : place.level ≤ ground + place.depth)
    (hcontext : context.Bounded ground) (offset : Nat) :
    (expectType offset place context).Bounded ground := by
  rw [expectType]
  split
  · exact .fail trivial
  · exact .go ⟨⟨hplace, Nat.not_lt.1 ‹_›⟩, hcontext⟩

theorem openType_bounded (hplace : place.Bounded ground) (hcontext : context.Bounded ground)
    (offset : Nat) (c : Char) : (openType offset place context c).Bounded ground := by
  rw [openType]
  split
  · apply Bounded.after _ hplace.le
    refine .go ⟨⟨Nat.succ_le_succ hplace.level_le, ?_, by decide⟩, hcontext⟩
    exact Nat.lt_succ_of_le hplace.depth_le
  split
  · exact .go ⟨hplace.le, hcontext⟩
  split
  · exact .go ⟨hplace, hcontext⟩
  split
  · exact Bounded.after (.go hcontext.after) hplace.le
  · exact .fail trivial

theorem beginType_bounded (hplace : place.level ≤ ground + place.depth)
    (hcontext : context.Bounded ground) (offset : Nat) (c : Char) :
    (beginType offset place context c).Bounded ground := by
  rw [beginType]
  split
  · exact .fail trivial
  · exact openType_bounded ⟨hplace, Nat.not_lt.1 ‹_›⟩ hcontext offset c

theorem root_bounded (hground : 0 < ground) (slot : Slot) :
    rootPlace.level ≤ ground + rootPlace.depth ∧ Context.Bounded ground ⟨slot, []⟩ :=
  ⟨hground, .inr hground, List.forall_mem_nil _⟩

theorem continueFormals_bounded (hground : 0 < ground) (offset : Nat) (c : Char) :
    (continueFormals offset c).Bounded ground := by
  obtain ⟨hplace, hcontext⟩ := root_bounded hground .bound
  rw [continueFormals]
  split
  · exact (expectType_bounded hplace hcontext _).after (Nat.zero_le _)
  split
  · exact .go hground
  · exact .go hground

theorem openBody_bounded (hground : 0 < ground) (offset : Nat) (c : Char) :
    (openBody offset c).Bounded ground := by
  obtain ⟨hplace, hcontext⟩ := root_bounded hground .supertype
  rw [openBody]
  split
  · exact .go hground
  · exact (beginType_bounded hplace hcontext offset c).after (Nat.zero_le _)

theorem endSegment_bounded (hplace : place.Bounded ground) {step : Step}
    (hstep : step.Bounded ground) {inner : Bool} {nameStart : Nat} {name : List Char} :
    (endSegment inner place nameStart name step).Bounded ground := by
  rw [endSegment]
  split
  · exact .fail trivial
  · exact hstep.after hplace.le

end Step

open Step in
theorem State.Bounded.step {s : State} (h : s.Bounded ground) (offset : Nat) (c : Char) :
    (s.step offset c).Bounded ground := by
  cases s with
  | start =>
    rw [State.step]
    split
    · exact .go h
    · exact openBody_bounded h offset c
  | formalName nameStart name =>
    rw [State.step]
    split
    · split
      · exact .fail trivial
      · exact Bounded.after (.go h) (Nat.zero_le _)
    · exact .go h
  | formalBounds =>
    obtain ⟨hplace, hcontext⟩ := root_bounded h .bound
    rw [State.step]
    split
    · exact (beginType_bounded hplace hcontext offset c).after (Nat.zero_le _)
    · exact continueFormals_bounded h offset c
  | moreBounds => exact continueFormals_bounded h offset c
  | body => exact openBody_bounded h offset c
  | parameters =>
    rw [State.step]
    split
    · obtain ⟨hplace, hcontext⟩ := root_bounded h .result
      exact (expectType_bounded hplace hcontext _).after (Nat.zero_le _)
    · obtain ⟨hplace, hcontext⟩ := root_bounded h .parameter
      exact (beginType_bounded hplace hcontext offset c).after (Nat.zero_le _)
  | interfaces =>
    obtain ⟨hplace, hcontext⟩ := root_bounded h .supertype
    exact (beginType_bounded hplace hcontext offset c).after (Nat.zero_le _)
  | exceptions =>
    obtain ⟨hplace, hcontext⟩ := root_bounded h .result
    rw [State.step]
    split
    · exact (expectType_bounded hplace hcontext _).after (Nat.zero_le _)
    · exact .fail trivial
  | complete => exact .fail trivial
  | type place context => exact openType_bounded h.1 h.2 offset c
  | element place dimensions context =>
    obtain ⟨⟨hlevel, hdepth, hdimensions⟩, hcontext⟩ := h
    rw [State.step]
    split
    · -- The array is announced before the number of arrays is looked at.
      apply Step.Satisfies.after
      · change place.level ≤ _
        omega
      split
      · exact .fail trivial
      · refine .go ⟨⟨Nat.succ_le_succ hlevel, ?_, Nat.not_lt.1 ‹_›⟩, hcontext⟩
        exact Nat.succ_lt_succ hdepth
    · exact beginType_bounded hlevel hcontext offset c
  | variableName level nameStart name context =>
    rw [State.step]
    split
    · split
      · exact .fail trivial
      · exact Bounded.after (.go h.2.after) h.1
    · exact .go h
  | segmentName inner place nameStart name context =>
    obtain ⟨hplace, hcontext⟩ := h
    rw [State.step]
    split
    · apply endSegment_bounded hplace
      exact .go ⟨hplace, hcontext⟩
    split
    · apply endSegment_bounded hplace
      exact Bounded.after (.go hcontext.after) hplace.le
    split
    · apply endSegment_bounded hplace
      exact .go ⟨hplace, hcontext⟩
    · exact .go ⟨hplace, hcontext⟩
  | arguments place fresh context =>
    obtain ⟨hplace, hcontext⟩ := h
    have hinside : place.inside.level ≤ ground + place.inside.depth :=
      Nat.succ_le_succ hplace.level_le
    have hwithin := hcontext.within hplace
    rw [State.step]
    split
    · split
      · exact .fail trivial
      · exact .go ⟨hplace, hcontext⟩
    split
    · exact Bounded.after (.go ⟨hplace, hcontext⟩) hplace.le
    iterate 3
      split
      · exact (expectType_bounded hinside hwithin _).after hplace.le
    · exact (beginType_bounded hinside hwithin offset c).after hplace.le
  | argumentsEnd place context =>
    rw [State.step]
    split
    · exact .go h
    split
    · exact Bounded.after (.go h.2.after) h.1.le
    · exact .fail trivial

end Reader

theorem Reading.level_le_of_bounded {s : State} (h : s.Bounded ground) (text : List Char) :
    ∀ d ∈ (run s 0 text).deliveries, d.level ≤ ground + maxNesting + maxDimensions := by
  have hstep : ∀ before c rest (s : State), text = before ++ c :: rest → s.Bounded ground →
      (s.step (width before) c).Bounded ground := by
    intro before c rest s _ hs
    exact hs.step (width before) c
  exact (satisfies_of_steps hstep (fun _ _ _ _ => trivial) (List.nil_append text).symm h).1

/-! ## Levels of a well-formed tree -/

mutual

/-- A type that stands deeper leaves less room for the types within it. -/
theorem TypeTree.WellFormed.level_le (level : Nat) :
    ∀ t : TypeTree, t.WellFormed depth →
      ∀ d ∈ t.deliveries level, d.level + depth ≤ level + maxNesting
  | .base _, h | .typeVariable _, h => by
    intro d hd
    rw [TypeTree.deliveries, List.mem_singleton] at hd
    subst hd
    exact Nat.add_le_add_left h.1 level
  | .array element, h => by
    refine List.forall_mem_cons.2 ⟨Nat.add_le_add_left h.1 level, ?_⟩
    intro d hd
    have hinner := TypeTree.WellFormed.level_le (level + 1) element h.2.2 d hd
    omega
  | .classType outer inners, h => by
    have hhere : level + depth ≤ level + maxNesting := Nat.add_le_add_left h.1 level
    intro d hd
    rw [TypeTree.deliveries, List.mem_append, List.mem_append, List.mem_singleton] at hd
    rcases hd with hd | hd | rfl
    · exact Segment.WellFormed.level_le level h.1 _ outer h.2.1 d hd
    · exact segments_level_le level h.1 inners h.2.2 d hd
    · exact hhere

theorem Segment.WellFormed.level_le (level : Nat) (hdepth : depth ≤ maxNesting)
    (announce : String → Event) :
    ∀ s : Segment, s.WellFormed depth →
      ∀ d ∈ s.deliveries level announce, d.level + depth ≤ level + maxNesting
  | .mk _ arguments, h =>
    List.forall_mem_cons.2
      ⟨Nat.add_le_add_left hdepth level, arguments_level_le level hdepth arguments h.2.2⟩

theorem Argument.WellFormed.level_le (level : Nat) (hdepth : depth ≤ maxNesting) :
    ∀ a : Argument, a.WellFormed depth →
      ∀ d ∈ a.deliveries level, d.level + depth ≤ level + maxNesting
  | .unbounded, _ => by
    intro d hd
    rw [Argument.deliveries, List.mem_singleton] at hd
    subst hd
    exact Nat.add_le_add_left hdepth level
  | .bounded variance bound tagged, h => by
    rw [Argument.deliveries_bounded]
    refine List.forall_mem_cons.2 ⟨Nat.add_le_add_left hdepth level, ?_⟩
    intro d hd
    have hinner := TypeTree.WellFormed.level_le (level + 1) bound h.2 d hd
    omega

theorem arguments_level_le (level : Nat) (hdepth : depth ≤ maxNesting) :
    ∀ as : List Argument, argumentsWellFormed depth as →
      ∀ d ∈ argumentDeliveries level as, d.level + depth ≤ level + maxNesting
  | [], _ => List.forall_mem_nil _
  | a :: as, h =>
    List.forall_mem_append.2
      ⟨Argument.WellFormed.level_le level hdepth a h.1, arguments_level_le level hdepth as h.2⟩

theorem segments_level_le (level : Nat) (hdepth : depth ≤ maxNesting) :
    ∀ ss : List Segment, segmentsWellFormed depth ss →
      ∀ d ∈ segmentDeliveries level ss, d.level + depth ≤ level + maxNesting
  | [], _ => List.forall_mem_nil _
  | s :: ss, h =>
    List.forall_mem_append.2
      ⟨Segment.WellFormed.level_le level hdepth _ s h.1, segments_level_le level hdepth ss h.2⟩

end

/-- A type that the root listener announces begins one level deeper. -/
theorem announced_level_le {t : TypeTree} (h : t.WellFormed 0) (event : Event) :
    ∀ d ∈ announced event t, d.level ≤ maxNesting + 1 := by
  refine List.forall_mem_cons.2 ⟨Nat.zero_le _, ?_⟩
  intro d hd
  have hinner := TypeTree.WellFormed.level_le 1 t h d hd
  omega

theorem flatMap_announced_level_le {ts : List TypeTree} (h : ∀ t ∈ ts, t.WellFormed 0)
    (event : Event) : ∀ d ∈ ts.flatMap (announced event), d.level ≤ maxNesting + 1 := by
  intro d hd
  obtain ⟨t, ht, hd⟩ := List.mem_flatMap.1 hd
  exact announced_level_le (h t ht) event d hd

theorem FormalsWellFormed.level_le {fs : List Formal} (h : FormalsWellFormed fs) :
    ∀ d ∈ fs.flatMap Formal.deliveries, d.level ≤ maxNesting + 1 := by
  intro d hd
  obtain ⟨f, hf, hd⟩ := List.mem_flatMap.1 hd
  have hwellFormed := h.all f hf
  rw [Formal.deliveries, List.mem_cons, List.mem_append] at hd
  rcases hd with rfl | hd | hd
  · exact Nat.zero_le _
  · refine flatMap_announced_level_le ?_ _ d hd
    intro t ht
    exact (hwellFormed.classBound t (Option.mem_toList.1 ht)).1
  · exact flatMap_announced_level_le hwellFormed.interfaceBounds _ d hd

theorem Document.WellFormed.level_le {document : Document} (h : document.WellFormed) :
    ∀ d ∈ document.deliveries,
      d.level ≤ maxNesting + if document.kind = .ofType then 0 else 1 := by
  cases document with
  | ofType tree => exact TypeTree.WellFormed.level_le 0 tree h
  | ofClass tree =>
    have hformals := h.formals.level_le
    have hsuperclass := announced_level_le h.superclass .superclass
    have hinterfaces := flatMap_announced_level_le h.interfaces .interface
    exact List.forall_mem_append.2 ⟨List.forall_mem_append.2 ⟨hformals, hsuperclass⟩, hinterfaces⟩
  | ofMethod tree =>
    have hformals := h.formals.level_le
    have hparameters := flatMap_announced_level_le h.parameters .parameter
    have hresult := announced_level_le h.result .result
    have hexceptions := flatMap_announced_level_le h.exceptions .exception
    exact List.forall_mem_append.2 ⟨List.forall_mem_append.2
      ⟨List.forall_mem_append.2 ⟨hformals, hparameters⟩, hresult⟩, hexceptions⟩

/-! ## The bounds -/

/-- Whatever the text, no event reaches a listener beyond a fixed level; in a text that is accepted,
the level is at most one more than the depth that a type may have. -/
theorem Reading.levels_bounded (text : String) :
    ((∀ d ∈ (ofType text).deliveries, d.level ≤ 767) ∧
        ∀ d ∈ (ofDeclaration text).deliveries, d.level ≤ 768) ∧
      ((ofType text).fault = none → ∀ d ∈ (ofType text).deliveries, d.level ≤ 512) ∧
        ((ofDeclaration text).fault = none →
          ∀ d ∈ (ofDeclaration text).deliveries, d.level ≤ 513) := by
  refine ⟨⟨?_, ?_⟩, ?_, ?_⟩
  · have hstart : (State.type ⟨0, 0⟩ ⟨.whole, []⟩).Bounded 0 :=
      ⟨⟨Nat.le_refl 0, Nat.zero_le _⟩, .inl rfl, List.forall_mem_nil _⟩
    exact level_le_of_bounded hstart text.toList
  · have hstart : State.start.Bounded 1 := Nat.one_pos
    exact level_le_of_bounded hstart text.toList
  · intro hfault
    obtain ⟨d, hd, hkind, rfl⟩ :=
      exists_document (show (ofKind .ofType text).fault = none from hfault)
    have hlevel := hd.level_le
    rw [if_pos (hkind.2 rfl)] at hlevel
    rw [show ofType d.text = _ from hd.ofKind_text hkind]
    exact hlevel
  · intro hfault
    obtain ⟨d, hd, hkind, rfl⟩ :=
      exists_document (show (ofKind .ofClass text).fault = none from hfault)
    have hlevel := hd.level_le
    rw [if_neg (by simp [hkind])] at hlevel
    rw [show ofDeclaration d.text = _ from hd.ofKind_text hkind]
    exact hlevel

/-- The bounds are reached. -/
theorem Reading.levels_bounded_reached :
    (∃ text, (ofType text).fault ≠ none ∧ (∀ d ∈ (ofType text).deliveries, d.level ≤ 767) ∧
        ∃ d ∈ (ofType text).deliveries, d.level = 767) ∧
      ∃ text, (ofDeclaration text).fault = none ∧
        (∀ d ∈ (ofDeclaration text).deliveries, d.level ≤ 513) ∧
        ∃ d ∈ (ofDeclaration text).deliveries, d.level = 513 := by
  let opened : List Char := (List.replicate 512 ['L', 'a', '<']).flatten
  let closed : List Char := (List.replicate 512 ['>', ';']).flatten
  constructor
  · refine ⟨String.ofList (opened ++ List.replicate 256 '['), ?_, (levels_bounded _).1.1, ?_⟩
    · rw [ofType, String.toList_ofList]
      decide +kernel
    · rw [ofType, String.toList_ofList]
      decide +kernel
  · have hfault : (ofDeclaration (String.ofList (opened ++ 'I' :: closed))).fault = none := by
      rw [ofDeclaration, String.toList_ofList]
      decide +kernel
    refine ⟨_, hfault, (levels_bounded _).2.2 hfault, ?_⟩
    rw [ofDeclaration, String.toList_ofList]
    decide +kernel

end ClassUnit.Signature
