import ClassUnit.Proofs.Signature.RoundTrip

/-! # Inferring the kind of a text

A kind is inferred from two characters: a bracket anywhere in the text makes a method, and else a
first `<` makes a class. For the text of a well-formed signature the first character says as much as
the grammar does, while the bracket may also stand in a name. So the inference is right for methods,
and for other signatures as long as no name holds a bracket (`Document.WellFormed.infer_eq_iff`). -/

namespace ClassUnit.Signature

/-! ## Brackets in names -/

def Event.name? : Event → Option String
  | .formal name | .typeVariable name | .classType name | .innerClass name => some name
  | _ => none

/-- The names of a signature, in the order of its text. -/
def Document.names (d : Document) : List String := d.events.filterMap Event.name?

/-- No name of the signature holds the character that opens a parameter list. -/
def Document.Plain (d : Document) : Prop := ∀ name ∈ d.names, '(' ∉ name.toList

instance (d : Document) : Decidable d.Plain := List.decidableBAll _ _

/-- One of the names that are delivered holds the character that opens a parameter list. -/
def Bracketed (ds : List Delivery) : Prop :=
  ∃ d ∈ ds, ∃ name, d.event.name? = some name ∧ '(' ∈ name.toList

@[simp] theorem bracketed_nil : ¬Bracketed [] := by
  simp [Bracketed]

@[simp] theorem bracketed_cons {d : Delivery} {ds : List Delivery} :
    Bracketed (d :: ds) ↔
      (∃ name, d.event.name? = some name ∧ '(' ∈ name.toList) ∨ Bracketed ds := by
  simp [Bracketed]

@[simp] theorem bracketed_append {ds es : List Delivery} :
    Bracketed (ds ++ es) ↔ Bracketed ds ∨ Bracketed es := by
  simp [Bracketed, or_and_right, exists_or]

theorem Document.plain_iff {d : Document} : d.Plain ↔ ¬Bracketed d.deliveries := by
  simp only [Plain, names, events, Bracketed, List.mem_filterMap, List.mem_map]
  constructor
  · rintro h ⟨delivery, hmem, name, hname, hbracket⟩
    exact h name ⟨_, ⟨delivery, hmem, rfl⟩, hname⟩ hbracket
  · rintro h name ⟨_, ⟨delivery, hmem, rfl⟩, hname⟩ hbracket
    exact h ⟨delivery, hmem, name, hname, hbracket⟩

theorem mem_flatMap_iff_bracketed {xs : List α} {f : α → List Char} {g : α → List Delivery}
    (h : ∀ x ∈ xs, '(' ∈ f x ↔ Bracketed (g x)) :
    '(' ∈ xs.flatMap f ↔ Bracketed (xs.flatMap g) := by
  induction xs with
  | nil => simp
  | cons x xs ih =>
    have hx := h x List.mem_cons_self
    have hxs := ih fun y hy => h y (List.mem_cons_of_mem x hy)
    simp only [List.flatMap_cons, List.mem_append, bracketed_append, hx, hxs]

mutual

/-- In the spelling of a type a bracket can only stand in a name. -/
theorem TypeTree.WellFormed.bracketed_iff : ∀ {t : TypeTree} {depth : Nat}, t.WellFormed depth →
    ∀ level, '(' ∈ t.spelling ↔ Bracketed (t.deliveries level)
  | .base code, _, h, level => by
    have hcode : '(' ≠ code := (ne_of_class h.2 rfl).symm
    simp [TypeTree.spelling, TypeTree.deliveries, Event.name?, hcode]
  | .typeVariable name, _, _, level => by
    simp [TypeTree.spelling, TypeTree.deliveries, Event.name?]
  | .array element, _, h, level => by
    have helement := h.2.2.bracketed_iff (level + 1)
    simp [TypeTree.spelling, TypeTree.deliveries, Event.name?, helement]
  | .classType outer inners, _, h, level => by
    have houter := h.2.1.bracketed_iff level .classType fun _ => rfl
    have hinners := bracketed_segments h.2.2 level
    simp [TypeTree.spelling, TypeTree.deliveries, Event.name?, houter, hinners]

theorem Segment.WellFormed.bracketed_iff : ∀ {s : Segment} {depth : Nat}, s.WellFormed depth →
    ∀ (level : Nat) (announce : String → Event), (∀ name, (announce name).name? = some name) →
      ('(' ∈ s.spelling ↔ Bracketed (s.deliveries level announce))
  | .mk name arguments, _, h, level, announce, hname => by
    have harguments := bracketed_arguments h.2.2 level
    cases arguments with
    | nil => simp [Segment.spelling, Segment.deliveries, argumentDeliveries, hname]
    | cons a as => simp [Segment.spelling, Segment.deliveries, hname, harguments]

theorem Argument.WellFormed.bracketed_iff : ∀ {a : Argument} {depth : Nat}, a.WellFormed depth →
    ∀ level, '(' ∈ a.spelling ↔ Bracketed (a.deliveries level)
  | .unbounded, _, _, level => by
    simp [Argument.spelling, Argument.deliveries, Event.name?]
  | .bounded variance bound tagged, _, h, level => by
    have hbound := h.2.bracketed_iff (level + 1)
    have hmark : '(' ∉ variance.mark tagged := by cases variance <;> cases tagged <;> decide
    have hevent : (variance.event tagged).name? = none := by cases tagged <;> rfl
    simp [Argument.spelling, Argument.deliveries_bounded, hmark, hevent, hbound]

theorem bracketed_arguments : ∀ {as : List Argument} {depth : Nat},
    argumentsWellFormed depth as → ∀ level,
      '(' ∈ argumentsSpelling as ↔ Bracketed (argumentDeliveries level as)
  | [], _, _, level => by simp [argumentsSpelling, argumentDeliveries]
  | a :: as, _, h, level => by
    have ha := h.1.bracketed_iff level
    have has := bracketed_arguments h.2 level
    simp [argumentsSpelling, argumentDeliveries, ha, has]

theorem bracketed_segments : ∀ {ss : List Segment} {depth : Nat},
    segmentsWellFormed depth ss → ∀ level,
      '(' ∈ segmentsSpelling ss ↔ Bracketed (segmentDeliveries level ss)
  | [], _, _, level => by simp [segmentsSpelling, segmentDeliveries]
  | s :: ss, _, h, level => by
    have hs := h.1.bracketed_iff level .innerClass fun _ => rfl
    have hss := bracketed_segments h.2 level
    simp [segmentsSpelling, segmentDeliveries, hs, hss]

end

theorem bracketed_announced {t : TypeTree} (h : t.WellFormed depth) (event : Event)
    (hevent : event.name? = none) : '(' ∈ t.spelling ↔ Bracketed (announced event t) := by
  simp [announced, hevent, h.bracketed_iff 1]

theorem Formal.WellFormed.bracketed_iff {f : Formal} (h : f.WellFormed) :
    '(' ∈ f.spelling ↔ Bracketed f.deliveries := by
  have hclass : '(' ∈ f.classBound.toList.flatMap TypeTree.spelling ↔
      Bracketed (f.classBound.toList.flatMap (announced .classBound)) :=
    mem_flatMap_iff_bracketed fun t ht =>
      bracketed_announced (h.classBound t (Option.mem_toList.1 ht)).1 .classBound rfl
  have hinterfaces : '(' ∈ f.interfaceBounds.flatMap (fun t => ':' :: t.spelling) ↔
      Bracketed (f.interfaceBounds.flatMap (announced .interfaceBound)) :=
    mem_flatMap_iff_bracketed fun t ht => by
      simp [← bracketed_announced (h.interfaceBounds t ht) .interfaceBound rfl]
  simp only [Formal.spelling, Formal.deliveries, List.mem_append, List.mem_cons, bracketed_cons,
    bracketed_append, hclass, hinterfaces]
  simp [Event.name?]

theorem FormalsWellFormed.bracketed_iff {fs : List Formal} (h : FormalsWellFormed fs) :
    '(' ∈ formalsSpelling fs ↔ Bracketed (fs.flatMap Formal.deliveries) := by
  have hall := mem_flatMap_iff_bracketed fun f hf => (h.all f hf).bracketed_iff
  rw [← hall, formalsSpelling]
  cases fs <;> simp

/-- In the text of a class a bracket can only stand in a name. -/
theorem ClassTree.WellFormed.bracketed_iff {t : ClassTree} (h : t.WellFormed) :
    '(' ∈ t.spelling ↔ Bracketed t.deliveries := by
  have hinterfaces : '(' ∈ t.interfaces.flatMap TypeTree.spelling ↔
      Bracketed (t.interfaces.flatMap (announced .interface)) :=
    mem_flatMap_iff_bracketed fun t ht => bracketed_announced (h.interfaces t ht) .interface rfl
  simp only [ClassTree.spelling, ClassTree.deliveries, List.mem_append, bracketed_append,
    h.formals.bracketed_iff, bracketed_announced h.superclass .superclass rfl, hinterfaces,
    or_assoc]

theorem MethodTree.bracket_mem_spelling (t : MethodTree) : '(' ∈ t.spelling := by
  simp [MethodTree.spelling]

/-- The text of a signature holds a bracket if the signature is a method, or one of its names holds
one. -/
theorem Document.WellFormed.bracket_mem_iff {d : Document} (h : d.WellFormed) :
    '(' ∈ d.text.toList ↔ d.kind = .ofMethod ∨ ¬d.Plain := by
  rw [Document.text_eq, String.toList_ofList, Document.plain_iff, not_not]
  cases d with
  | ofClass tree => simp [Document.spelling, Document.kind, Document.deliveries, h.bracketed_iff]
  | ofMethod tree => simp [Document.spelling, Document.kind, tree.bracket_mem_spelling]
  | ofType tree => simp [Document.spelling, Document.kind, Document.deliveries, h.bracketed_iff 0]

/-! ## The first character -/

/-- The first characters tell the kinds of a signature apart, which leaves out a class without
formal type parameters: it begins like a type. -/
def Document.Marked : Document → Prop
  | .ofClass tree => tree.formals ≠ []
  | _ => True

theorem not_opensType_angle : ¬opensType '<' := by decide

theorem exists_formalsSpelling_eq_cons {fs : List Formal} (h : fs ≠ []) :
    ∃ cs, formalsSpelling fs = '<' :: cs := by
  cases fs with
  | nil => exact absurd rfl h
  | cons f fs => exact ⟨_, rfl⟩

theorem ClassTree.WellFormed.head?_spelling_iff {t : ClassTree} (h : t.WellFormed) :
    t.spelling.head? = some '<' ↔ t.formals ≠ [] := by
  constructor
  · rintro hhead hnil
    obtain ⟨c, cs, hcs, hc, -⟩ := h.superclass.spelling_cons
    have hangle : c = '<' := by simpa [ClassTree.spelling, hnil, formalsSpelling, hcs] using hhead
    exact not_opensType_angle (hangle ▸ hc)
  · intro hne
    obtain ⟨cs, hcs⟩ := exists_formalsSpelling_eq_cons hne
    simp [ClassTree.spelling, hcs]

theorem MethodTree.exists_spelling_eq_cons (t : MethodTree) :
    ∃ c cs, t.spelling = c :: cs ∧ ¬opensType c := by
  obtain ⟨_ | ⟨f, fs⟩, parameters, result, exceptions⟩ := t
  · exact ⟨'(', _, rfl, by decide⟩
  · exact ⟨'<', _, rfl, not_opensType_angle⟩

theorem Document.marked_of_kind_ne {d : Document} (h : d.kind ≠ .ofClass) : d.Marked := by
  cases d with
  | ofClass tree => exact absurd rfl h
  | ofMethod | ofType => trivial

theorem Document.WellFormed.marked_iff {d : Document} (h : d.WellFormed) :
    d.Marked ↔ (d.kind = .ofClass → d.text.toList.head? = some '<') := by
  rw [Document.text_eq, String.toList_ofList]
  cases d with
  | ofClass tree => simp [Marked, kind, spelling, ClassTree.WellFormed.head?_spelling_iff h]
  | ofMethod tree => simp [Marked, kind]
  | ofType tree => simp [Marked, kind]

/-- The first character tells the types among the marked signatures. -/
theorem Document.WellFormed.kind_eq_ofType_iff {d : Document} (h : d.WellFormed) (hd : d.Marked) :
    d.kind = .ofType ↔ ∃ c cs, d.text.toList = c :: cs ∧ opensType c := by
  rw [Document.text_eq, String.toList_ofList]
  cases d with
  | ofClass tree =>
    obtain ⟨cs, hcs⟩ := exists_formalsSpelling_eq_cons hd
    simp [kind, spelling, ClassTree.spelling, hcs, not_opensType_angle]
  | ofMethod tree =>
    obtain ⟨c, cs, hcs, hc⟩ := tree.exists_spelling_eq_cons
    simp [kind, spelling, hcs, hc]
  | ofType tree =>
    obtain ⟨c, cs, hcs, hc, -⟩ := TypeTree.WellFormed.spelling_cons h
    simp [kind, spelling, hcs, hc]

/-- A text is that of at most one marked signature. -/
theorem Document.eq_of_marked {d e : Document} (hd : d.WellFormed) (he : e.WellFormed)
    (hdm : d.Marked) (hem : e.Marked) (htext : d.text = e.text) : d = e := by
  have hkind : d.kind = .ofType ↔ e.kind = .ofType := by
    rw [hd.kind_eq_ofType_iff hdm, he.kind_eq_ofType_iff hem, htext]
  have hparse : parse d.text e.kind = .ok e := parse_eq_ok_iff.2 ⟨he, rfl, htext.symm⟩
  rw [hd.parse_text hkind] at hparse
  split at hparse
  · exact Except.ok.inj hparse
  · cases hparse

/-! ## The inferred kind -/

theorem Kind.infer_of_bracket {text : String} (h : '(' ∈ text.toList) : infer text = .ofMethod := by
  simp [infer, h]

theorem Kind.infer_of_no_bracket {text : String} (h : '(' ∉ text.toList) :
    infer text = if text.toList.head? = some '<' then .ofClass else .ofType := by
  simp [infer, h]

/-- The kind of a method is inferred from its text, and any other kind if no name holds a bracket
and the signature is no class without formal type parameters. -/
theorem Document.WellFormed.infer_eq_iff {d : Document} (h : d.WellFormed) :
    Kind.infer d.text = d.kind ↔ d.Marked ∧ (d.kind = .ofMethod ∨ d.Plain) := by
  by_cases hbracket : '(' ∈ d.text.toList
  · have hd := h.bracket_mem_iff.1 hbracket
    rw [Kind.infer_of_bracket hbracket]
    constructor
    · intro hkind
      exact ⟨marked_of_kind_ne (by simp [← hkind]), .inl hkind.symm⟩
    · rintro ⟨-, hkind | hplain⟩
      · exact hkind.symm
      · exact (hd.resolve_right (not_not_intro hplain)).symm
  · have hd := mt h.bracket_mem_iff.2 hbracket
    rw [not_or, not_not] at hd
    rw [Kind.infer_of_no_bracket hbracket, and_iff_left (.inr hd.2), h.marked_iff]
    cases hkind : d.kind with
    | ofMethod => exact absurd hkind hd.1
    | ofClass => simp
    | ofType =>
      have hmarked : d.Marked := marked_of_kind_ne (by simp [hkind])
      obtain ⟨c, cs, hcs, hc⟩ := (h.kind_eq_ofType_iff hmarked).1 hkind
      have hne : c ≠ '<' := ne_of_class hc (by decide)
      simp [hcs, hne]

/-- The text of a marked signature is parsed as the inferred kind only where that is its own kind. -/
theorem Document.exists_parse_infer_iff {d : Document} (h : d.WellFormed) (hd : d.Marked) :
    (∃ e, parse d.text (.infer d.text) = .ok e) ↔ d.kind = .ofMethod ∨ d.Plain := by
  constructor
  · rintro ⟨e, he⟩
    obtain ⟨hwell, hkind, htext⟩ := parse_eq_ok_iff.1 he
    have hinfer : Kind.infer e.text = e.kind := by rw [htext, hkind]
    obtain ⟨hmarked, htells⟩ := hwell.infer_eq_iff.1 hinfer
    rwa [eq_of_marked h hwell hd hmarked htext.symm]
  · intro htells
    exact ⟨d, parse_eq_ok_iff.2 ⟨h, (h.infer_eq_iff.2 ⟨hd, htells⟩).symm, rfl⟩⟩

end ClassUnit.Signature
