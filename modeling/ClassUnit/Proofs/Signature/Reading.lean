import ClassUnit.Proofs.Signature.WellFormed

/-! # Reading well-formed signatures

A reader that meets the spelling of a well-formed tree delivers the events of the tree and goes on
behind it (`run_type` for a type, `ofKind_text` for a signature). The proofs follow the tree; what
a reader does with one character is stated first, as an equation of `Reading.run`. -/

namespace ClassUnit.Signature
open Reader

/-! ## One character -/

/-- The delimiters take one byte each. -/
@[simp] theorem utf8Size_ascii {c : Char} (h : c.val ≤ 127) : c.utf8Size = 1 := by
  simp [Char.utf8Size, h]

/-- The number of bytes of a text. -/
def width : List Char → Nat
  | [] => 0
  | c :: cs => c.utf8Size + width cs

@[simp] theorem width_nil : width [] = 0 := rfl

@[simp] theorem width_cons : width (c :: cs) = c.utf8Size + width cs := rfl

@[simp] theorem width_append : width (cs ++ ds) = width cs + width ds := by
  induction cs with
  | nil => simp
  | cons c cs ih => rw [List.cons_append, width_cons, width_cons, ih, Nat.add_assoc]

namespace Reading

/-- A reading with deliveries in front. -/
def after (ds : List Delivery) (r : Reading) : Reading := ⟨ds ++ r.deliveries, r.fault⟩

@[simp] theorem after_nil (r : Reading) : r.after [] = r := rfl

@[simp] theorem after_after (r : Reading) (ds es : List Delivery) :
    (r.after es).after ds = r.after (ds ++ es) := by simp [after]

@[simp] theorem deliveries_after (r : Reading) (ds : List Delivery) :
    (r.after ds).deliveries = ds ++ r.deliveries := rfl

@[simp] theorem fault_after (r : Reading) (ds : List Delivery) : (r.after ds).fault = r.fault := rfl

/-- The reading of what follows a step. -/
def proceed (step : Step) (offset : Nat) (rest : List Char) : Reading :=
  match step.next with
  | .error fault => ⟨step.deliveries, some fault⟩
  | .ok next => (run next offset rest).after step.deliveries

theorem run_nil : run s offset [] = ⟨[], s.finish offset⟩ := rfl

theorem run_cons (s : State) (offset : Nat) (c : Char) (rest : List Char) :
    run s offset (c :: rest) = proceed (s.step offset c) (offset + c.utf8Size) rest := by
  rw [run]
  split <;> simp_all [proceed, after]

@[simp] theorem proceed_go : proceed (.go s) offset rest = run s offset rest := rfl

@[simp] theorem proceed_fail :
    proceed (.fail place reason) offset rest = ⟨[], some ⟨place, reason⟩⟩ := rfl

@[simp] theorem proceed_after :
    proceed (.after d step) offset rest = (proceed step offset rest).after [d] := by
  obtain ⟨ds, next⟩ := step
  cases next <;> simp [proceed, Step.after, after]

theorem proceed_expectType (h : place.depth ≤ maxNesting) :
    proceed (expectType at_ place context) offset rest = run (.type place context) offset rest := by
  simp [expectType, Nat.not_lt.2 h]

theorem proceed_rootType :
    proceed (expectType at_ rootPlace context) offset rest =
      run (.type rootPlace context) offset rest :=
  proceed_expectType (Nat.zero_le _)

/-- Where a type begins without an announcement, its first character is read as of the type. -/
theorem proceed_beginType (h : place.depth ≤ maxNesting) :
    proceed (beginType offset place context c) (offset + c.utf8Size) rest =
      run (.type place context) offset (c :: rest) := by
  simp [beginType, Nat.not_lt.2 h, run_cons, State.step]

/-! ## Names -/

/-- A state that keeps characters until one ends the name takes in a whole name. -/
theorem run_name (S : List Char → State) (ends : Char → Bool)
    (hS : ∀ offset c acc, ¬ends c → (S acc).step offset c = .go (S (c :: acc)))
    {name : List Char} (h : ∀ c ∈ name, ¬ends c) :
    run (S acc) offset (name ++ rest) =
      run (S (name.reverse ++ acc)) (offset + width name) rest := by
  induction name generalizing acc offset with
  | nil => simp
  | cons c name ih =>
    have hc := h c (by simp)
    rw [List.cons_append, run_cons, hS _ _ _ hc, proceed_go, ih fun d hd => h d (by simp [hd])]
    simp [Nat.add_assoc]

theorem run_variableName {name : List Char} (h : ∀ c ∈ name, ¬c = ';') :
    run (.variableName level start acc context) offset (name ++ rest) =
      run (.variableName level start (name.reverse ++ acc) context) (offset + width name) rest :=
  run_name (fun acc => .variableName level start acc context) (· = ';')
    (by intro _ c _ hc; simp_all [State.step]) (by simpa using h)

theorem run_segmentName {inner : Bool} {name : List Char} (h : ∀ c ∈ name, ¬endsSegment c) :
    run (.segmentName inner place start acc context) offset (name ++ rest) =
      run (.segmentName inner place start (name.reverse ++ acc) context) (offset + width name)
        rest :=
  run_name (fun acc => .segmentName inner place start acc context) endsSegment
    (by intro _ c _ hc; simp_all [State.step, endsSegment]) h

theorem run_formalName {name : List Char} (h : ∀ c ∈ name, ¬c = ':') :
    run (.formalName start acc) offset (name ++ rest) =
      run (.formalName start (name.reverse ++ acc)) (offset + width name) rest :=
  run_name (fun acc => .formalName start acc) (· = ':')
    (by intro _ c _ hc; simp_all [State.step]) (by simpa using h)

/-! ## Types -/

/-- States in which a type is expected at `place`, after `dimensions` arrays in a row. -/
inductive Awaits (context : Context) : State → Place → Nat → Prop
  | type : place.depth ≤ maxNesting → Awaits context (.type place context) place 0
  | element : Awaits context (.element ⟨level, depth⟩ dimensions context) ⟨level, depth + 1⟩
      dimensions

/-- Unless a further array begins, the arrays before a type make no difference. -/
theorem Awaits.run_of_ne (H : Awaits context s place dimensions) (h : place.depth ≤ maxNesting)
    (hc : c ≠ '[') :
    run s offset (c :: rest) = run (.type place context) offset (c :: rest) := by
  cases H with
  | type => rfl
  | element =>
    rw [run_cons]
    simp [State.step, hc, proceed_beginType h]

theorem Awaits.run_array (H : Awaits context s place dimensions)
    (h : dimensions < maxDimensions) :
    run s offset ('[' :: rest) =
      (run (.element ⟨place.level + 1, place.depth⟩ (dimensions + 1) context) (offset + 1)
        rest).after [⟨place.level, .array⟩] := by
  cases H with
  | type => simp [run_cons, State.step, openType]
  | element => simp [run_cons, State.step, Nat.not_lt.2 h, Place.inside]

/-- Where the first character of a type announces it, the type is read behind the
announcement. -/
theorem run_begins (place : Place) {t : TypeTree} (h : t.WellFormed place.depth)
    (hs : ∀ c, opensType c → (opensClassBound c ↔ ¬t.isBase) →
      s.step offset c = .after d (beginType offset place context c)) :
    run s offset (t.spelling ++ rest) =
      (run (.type place context) offset (t.spelling ++ rest)).after [d] := by
  obtain ⟨c, cs, hcs, hc, -, hbound⟩ := h.spelling_cons
  rw [hcs, List.cons_append, run_cons, hs c hc hbound, proceed_after, proceed_beginType h.depth_le]

/-- The event that announces a segment. -/
def segmentEvent (inner : Bool) : String → Event := if inner then .innerClass else .classType

/-- Behind a segment stands a further segment or the end of the class type. -/
def EndsArguments (rest : List Char) : Prop := ∃ c cs, rest = c :: cs ∧ (c = '.' ∨ c = ';')

theorem run_segmentName_end {inner : Bool} {name : String} (hne : name ≠ "")
    (H : EndsArguments rest) :
    run (.segmentName inner place start name.toList.reverse context) offset rest =
      (run (.argumentsEnd place context) offset rest).after
        [⟨place.level, segmentEvent inner name⟩] := by
  obtain ⟨c, cs, rfl, rfl | rfl⟩ := H <;>
    cases inner <;> simp [run_cons, State.step, endSegment, segmentEvent, hne]

theorem run_segmentName_arguments {inner : Bool} {name : String} (hne : name ≠ "") :
    run (.segmentName inner place start name.toList.reverse context) offset ('<' :: rest) =
      (run (.arguments place true context) (offset + 1) rest).after
        [⟨place.level, segmentEvent inner name⟩] := by
  cases inner <;> simp [run_cons, State.step, endSegment, segmentEvent, hne]

theorem endsArguments_segments (ss : List Segment) (rest : List Char) :
    EndsArguments (segmentsSpelling ss ++ ';' :: rest) := by
  cases ss with
  | nil => exact ⟨';', rest, rfl, .inr rfl⟩
  | cons s ss => exact ⟨'.', _, rfl, .inl rfl⟩

/-- A bound is announced by its mark, and for want of one by its first character. -/
theorem run_arguments_mark {bound : TypeTree} (h : bound.WellFormed (place.depth + 1))
    (variance : Variance) (tagged : Bool) :
    run (.arguments place fresh context) offset
        (variance.mark tagged ++ (bound.spelling ++ rest)) =
      (run (.type place.inside (context.within place)) (offset + width (variance.mark tagged))
        (bound.spelling ++ rest)).after [⟨place.level, variance.event tagged⟩] := by
  have hdepth : place.inside.depth ≤ maxNesting := h.depth_le
  have hbare : run (.arguments place fresh context) offset (bound.spelling ++ rest) =
      (run (.type place.inside (context.within place)) offset (bound.spelling ++ rest)).after
        [⟨place.level, .argument .exact⟩] := by
    apply run_begins place.inside h
    intro c hc _
    have h1 : c ≠ '>' := ne_of_class hc rfl
    have h2 : c ≠ '*' := ne_of_class hc rfl
    have h3 : c ≠ '=' := ne_of_class hc rfl
    have h4 : c ≠ '+' := ne_of_class hc rfl
    have h5 : c ≠ '-' := ne_of_class hc rfl
    simp [State.step, h1, h2, h3, h4, h5]
  cases tagged with
  | true =>
    simp [Variance.mark, Variance.tag, Variance.event, run_cons, State.step,
      proceed_expectType hdepth]
  | false =>
    cases variance with
    | exact => simpa [Variance.mark, Variance.event] using hbare
    | extending | superOf =>
      simp [Variance.mark, Variance.tag, Variance.event, run_cons, State.step,
        proceed_expectType hdepth]

mutual

/-- Where a type is expected, a well-formed one is read to its end. -/
theorem run_type (H : Awaits context s place dimensions) (offset : Nat) (rest : List Char) :
    ∀ t : TypeTree, t.WellFormed place.depth → dimensions + t.dimensions ≤ maxDimensions →
      run s offset (t.spelling ++ rest) =
        (run context.after (offset + width t.spelling) rest).after (t.deliveries place.level)
  | .base code, h, _ => by
    have hcode : isBaseCode code := h.2
    have h1 : code ≠ '[' := ne_of_class hcode rfl
    have h2 : code ≠ 'T' := ne_of_class hcode rfl
    have h3 : code ≠ 'L' := ne_of_class hcode rfl
    rw [TypeTree.spelling, List.singleton_append, H.run_of_ne h.1 h1, run_cons]
    simp [State.step, openType, h1, h2, h3, hcode, TypeTree.deliveries]
  | .typeVariable name, ⟨h, hne, hends⟩, _ => by
    have hname : ∀ c ∈ name.toList, ¬c = ';' := List.forall_mem_ne'.2 hends
    rw [TypeTree.spelling, List.cons_append, H.run_of_ne h (by decide), run_cons]
    simp [State.step, openType, run_variableName hname, run_cons, hne, TypeTree.deliveries,
      Nat.add_assoc]
  | .array element, h, hd => by
    simp only [TypeTree.dimensions] at hd
    rw [TypeTree.spelling, List.cons_append, H.run_array (by omega),
      run_type .element _ rest element h.2.2 (by omega)]
    simp [TypeTree.deliveries, Nat.add_assoc]
  | .classType outer inners, ⟨h, houter, hinners⟩, _ => by
    have hends := endsArguments_segments inners rest
    have hstep : (State.type place context).step offset 'L' =
        .go (.segmentName false place (offset + 1) [] context) := rfl
    rw [TypeTree.spelling, List.cons_append, H.run_of_ne h (by decide), run_cons, hstep, proceed_go,
      List.append_assoc, List.append_assoc, List.singleton_append,
      run_segment _ _ _ _ _ _ hends outer houter, run_segments _ _ _ _ inners hinners]
    simp [TypeTree.deliveries, segmentEvent, Nat.add_assoc]

theorem run_segment (inner : Bool) (place : Place) (start : Nat) (context : Context)
    (offset : Nat) (rest : List Char) (H : EndsArguments rest) :
    ∀ s : Segment, s.WellFormed place.depth →
      run (.segmentName inner place start [] context) offset (s.spelling ++ rest) =
        (run (.argumentsEnd place context) (offset + width s.spelling) rest).after
          (s.deliveries place.level (segmentEvent inner))
  | .mk name [], ⟨hne, hends, _⟩ => by
    simp [Segment.spelling, run_segmentName hends, run_segmentName_end hne H, Segment.deliveries,
      argumentDeliveries]
  | .mk name (a :: as), ⟨hne, hends, harguments⟩ => by
    have hlist := run_arguments place true context (offset + (width name.toList + 1)) rest (a :: as)
      harguments (by simp)
    simp [Segment.spelling, run_segmentName hends, run_segmentName_arguments hne, hlist,
      Segment.deliveries, Nat.add_assoc]

theorem run_segments (place : Place) (context : Context) (offset : Nat) (rest : List Char) :
    ∀ ss : List Segment, segmentsWellFormed place.depth ss →
      run (.argumentsEnd place context) offset (segmentsSpelling ss ++ ';' :: rest) =
        (run context.after (offset + width (segmentsSpelling ss) + 1) rest).after
          (segmentDeliveries place.level ss ++ [⟨place.level, .close⟩])
  | [], _ => by
    simp [segmentsSpelling, run_cons, State.step, segmentDeliveries]
  | s :: ss, ⟨hs, hss⟩ => by
    have hends := endsArguments_segments ss rest
    simp [segmentsSpelling, run_cons, State.step, segmentDeliveries,
      run_segment _ _ _ _ _ _ hends s hs, run_segments _ _ _ _ ss hss, segmentEvent,
      Nat.add_assoc]

theorem run_arguments (place : Place) (fresh : Bool) (context : Context) (offset : Nat)
    (rest : List Char) :
    ∀ as : List Argument, argumentsWellFormed place.depth as → (fresh → as ≠ []) →
      run (.arguments place fresh context) offset (argumentsSpelling as ++ '>' :: rest) =
        (run (.argumentsEnd place context) (offset + width (argumentsSpelling as) + 1) rest).after
          (argumentDeliveries place.level as)
  | [], _, hfresh => by
    have hstale : fresh = false := by simpa using hfresh
    simp [argumentsSpelling, run_cons, State.step, hstale, argumentDeliveries]
  | a :: as, ⟨ha, has⟩, _ => by
    simp [argumentsSpelling, run_argument _ _ _ _ _ a ha, argumentDeliveries,
      run_arguments place false context _ _ as has (by simp), Nat.add_assoc]

theorem run_argument (place : Place) (fresh : Bool) (context : Context) (offset : Nat)
    (rest : List Char) :
    ∀ a : Argument, a.WellFormed place.depth →
      run (.arguments place fresh context) offset (a.spelling ++ rest) =
        (run (.arguments place false context) (offset + width a.spelling) rest).after
          (a.deliveries place.level)
  | .unbounded, _ => by
    simp [Argument.spelling, run_cons, State.step, Argument.deliveries]
  | .bounded variance bound tagged, ⟨htag, hbound⟩ => by
    have hawaits : Awaits (context.within place) (.type place.inside (context.within place))
        place.inside 0 := .type hbound.depth_le
    have htype : ∀ offset, run (.type place.inside (context.within place)) offset
        (bound.spelling ++ rest) =
          (run (.arguments place false context) (offset + width bound.spelling) rest).after
            (bound.deliveries (place.level + 1)) := fun offset =>
      run_type hawaits offset rest bound hbound (by simpa using hbound.dimensions_le)
    simp [Argument.spelling, Argument.deliveries_bounded, run_arguments_mark hbound, htype,
      Nat.add_assoc]

end

/-! ## Signatures -/

/-- A type that the root listener announces. -/
theorem run_rootType {t : TypeTree} (h : t.WellFormed 0) (slot : Slot) (offset : Nat)
    (rest : List Char) :
    run (.type rootPlace ⟨slot, []⟩) offset (t.spelling ++ rest) =
      (run (Context.after ⟨slot, []⟩) (offset + width t.spelling) rest).after (t.deliveries 1) :=
  run_type (.type h.depth_le) offset rest t h (by simpa using h.dimensions_le)

/-- A state that returns to itself with each type takes in a whole list of types. -/
theorem run_all (lead : List Char) {s : State} {event : Event}
    (hs : ∀ t offset rest, t.WellFormed 0 → run s offset (lead ++ (t.spelling ++ rest)) =
      (run s (offset + width (lead ++ t.spelling)) rest).after (announced event t))
    {ts : List TypeTree} (h : ∀ t ∈ ts, t.WellFormed 0) (offset : Nat) (rest : List Char) :
    run s offset (ts.flatMap (fun t => lead ++ t.spelling) ++ rest) =
      (run s (offset + width (ts.flatMap fun t => lead ++ t.spelling)) rest).after
        (ts.flatMap (announced event)) := by
  induction ts generalizing offset with
  | nil => simp
  | cons t ts ih =>
    have ht := hs t offset (ts.flatMap (fun t => lead ++ t.spelling) ++ rest) (h t (by simp))
    simp only [List.flatMap_cons, List.append_assoc, ht,
      ih (fun t ht => h t (by simp [ht])), after_after, width_append, Nat.add_assoc]

theorem run_interfaces {ts : List TypeTree} (h : ∀ t ∈ ts, t.WellFormed 0) (offset : Nat)
    (rest : List Char) :
    run .interfaces offset (ts.flatMap TypeTree.spelling ++ rest) =
      (run .interfaces (offset + width (ts.flatMap TypeTree.spelling)) rest).after
        (ts.flatMap (announced .interface)) := by
  refine run_all [] (fun t offset rest ht => ?_) h offset rest
  rw [List.nil_append, run_begins rootPlace ht fun _ _ _ => rfl, run_rootType ht]
  simp [announced, Context.after]

theorem run_parameters {ts : List TypeTree} (h : ∀ t ∈ ts, t.WellFormed 0) (offset : Nat)
    (rest : List Char) :
    run .parameters offset (ts.flatMap TypeTree.spelling ++ rest) =
      (run .parameters (offset + width (ts.flatMap TypeTree.spelling)) rest).after
        (ts.flatMap (announced .parameter)) := by
  refine run_all [] (fun t offset rest ht => ?_) h offset rest
  have hstep : ∀ c, opensType c → (opensClassBound c ↔ ¬t.isBase) →
      State.parameters.step offset c =
        .after ⟨0, .parameter⟩ (beginType offset rootPlace ⟨.parameter, []⟩ c) := by
    intro c hc _
    have hne : c ≠ ')' := ne_of_class hc rfl
    simp [State.step, hne]
  rw [List.nil_append, run_begins rootPlace ht hstep, run_rootType ht]
  simp [announced, Context.after]

theorem run_exceptions {ts : List TypeTree} (h : ∀ t ∈ ts, t.WellFormed 0) (offset : Nat)
    (rest : List Char) :
    run .exceptions offset (ts.flatMap (fun t => '^' :: t.spelling) ++ rest) =
      (run .exceptions (offset + width (ts.flatMap fun t => '^' :: t.spelling)) rest).after
        (ts.flatMap (announced .exception)) := by
  refine run_all ['^'] (fun t offset rest ht => ?_) h offset rest
  simp [run_cons, State.step, proceed_rootType,
    run_rootType ht, announced, Context.after, Nat.add_assoc]

theorem run_interfaceBounds {ts : List TypeTree} (h : ∀ t ∈ ts, t.WellFormed 0) (offset : Nat)
    (rest : List Char) :
    run .moreBounds offset (ts.flatMap (fun t => ':' :: t.spelling) ++ rest) =
      (run .moreBounds (offset + width (ts.flatMap fun t => ':' :: t.spelling)) rest).after
        (ts.flatMap (announced .interfaceBound)) := by
  refine run_all [':'] (fun t offset rest ht => ?_) h offset rest
  simp [run_cons, State.step, continueFormals,
    proceed_rootType, run_rootType ht, announced,
    Context.after, Nat.add_assoc]

/-- Where no class bound begins, a name may be followed by what may follow a bound. -/
theorem run_formalBounds_of_not_opens (h : ∀ c, rest.head? = some c → ¬opensClassBound c) :
    run .formalBounds offset rest = run .moreBounds offset rest := by
  cases rest with
  | nil => rfl
  | cons c rest =>
    have hc := h c rfl
    simp only [opensClassBound, Bool.or_eq_true, decide_eq_true_eq, not_or] at hc
    simp [run_cons, State.step, hc]

theorem run_formalBounds {f : Formal} (h : f.WellFormed)
    (hrest : f.unbounded → ∀ c, rest.head? = some c → ¬opensClassBound c) :
    run .formalBounds offset (f.classBound.toList.flatMap TypeTree.spelling ++
        (f.interfaceBounds.flatMap (fun t => ':' :: t.spelling) ++ rest)) =
      (run .moreBounds (offset + width (f.classBound.toList.flatMap TypeTree.spelling) +
        width (f.interfaceBounds.flatMap fun t => ':' :: t.spelling)) rest).after
          (f.classBound.toList.flatMap (announced .classBound) ++
            f.interfaceBounds.flatMap (announced .interfaceBound)) := by
  obtain ⟨name, bound, bounds⟩ := f
  have hbounds := run_interfaceBounds h.interfaceBounds
  simp only at hbounds
  cases bound with
  | none =>
    have hmore : run .formalBounds offset (bounds.flatMap (fun t => ':' :: t.spelling) ++ rest) =
        run .moreBounds offset (bounds.flatMap (fun t => ':' :: t.spelling) ++ rest) := by
      apply run_formalBounds_of_not_opens
      intro c hc
      cases bounds with
      | nil => exact hrest rfl c hc
      | cons t ts =>
        obtain rfl : ':' = c := by simpa using hc
        decide
    simp [hmore, hbounds]
  | some bound =>
    obtain ⟨hbound, hbase⟩ := h.classBound bound rfl
    have hstep : ∀ c, opensType c → (opensClassBound c ↔ ¬bound.isBase) →
        State.formalBounds.step offset c =
          .after ⟨0, .classBound⟩ (beginType offset rootPlace ⟨.bound, []⟩ c) := by
      intro c _ hc
      have hopens := hc.2 hbase
      simp only [opensClassBound, Bool.or_eq_true, decide_eq_true_eq, or_assoc] at hopens
      simp [State.step, hopens]
    simp [run_begins rootPlace hbound hstep, run_rootType hbound, Context.after,
      hbounds, announced]

theorem run_formal {f : Formal} (h : f.WellFormed) (offset : Nat)
    (hrest : f.unbounded → ∀ c, rest.head? = some c → ¬opensClassBound c) :
    run (.formalName offset []) offset (f.spelling ++ rest) =
      (run .moreBounds (offset + width f.spelling) rest).after f.deliveries := by
  have hname : ∀ c ∈ f.name.toList, ¬c = ':' := List.forall_mem_ne'.2 h.colon_notMem
  simp [Formal.spelling, Formal.deliveries, run_formalName hname, run_cons, State.step, h.name_ne,
    run_formalBounds h hrest, Nat.add_assoc]

/-- A name that is read on from its first character. -/
theorem run_moreBounds_name (h : c ≠ ':') (h' : c ≠ '>') :
    run .moreBounds offset (c :: rest) = run (.formalName offset []) offset (c :: rest) := by
  simp [run_cons, State.step, continueFormals, h, h']

theorem run_formals {f : Formal} {fs : List Formal} (h : FormalsWellFormed (f :: fs))
    (offset : Nat) (rest : List Char) :
    run (.formalName offset []) offset ((f :: fs).flatMap Formal.spelling ++ '>' :: rest) =
      (run .body (offset + width ((f :: fs).flatMap Formal.spelling) + 1) rest).after
        ((f :: fs).flatMap Formal.deliveries) := by
  induction fs generalizing f offset with
  | nil =>
    have hend : f.unbounded → ∀ c, ('>' :: rest).head? = some c → ¬opensClassBound c := by
      rintro - c ⟨⟩
      decide
    simp [run_formal (h.all f (by simp)) offset hend, run_cons, State.step, continueFormals]
  | cons g gs ih =>
    have hg : FormalsWellFormed (g :: gs) :=
      ⟨fun f hf => h.all f (List.mem_cons_of_mem _ hf), h.chain.tail⟩
    have hprecedes : f.Precedes g := h.chain.rel
    obtain ⟨c, cs, hc⟩ : ∃ c cs, g.name.toList = c :: cs := by
      cases hname : g.name.toList with
      | nil => exact absurd (by simpa using hname) (hg.all g (by simp)).name_ne
      | cons c cs => exact ⟨c, cs, rfl⟩
    have hcolon : c ≠ ':' := by
      rintro rfl
      exact (hg.all g (by simp)).colon_notMem (by simp [hc])
    obtain ⟨hend, hopens⟩ := hprecedes c (by simp [hc])
    obtain ⟨tail, htail⟩ : ∃ tail, (g :: gs).flatMap Formal.spelling ++ '>' :: rest = c :: tail :=
      ⟨_, by simp [Formal.spelling, hc]; rfl⟩
    have hnext : f.unbounded → ∀ d, (c :: tail).head? = some d → ¬opensClassBound d := by
      rintro hf d ⟨⟩
      exact hopens hf
    have hrest := ih hg (offset + width f.spelling)
    rw [htail] at hrest
    rw [List.flatMap_cons, List.append_assoc, htail,
      run_formal (h.all f (by simp)) offset hnext, run_moreBounds_name hcolon hend, hrest]
    simp [Nat.add_assoc]

/-- The formal type parameters, and after them the rest of a class or method signature. -/
theorem run_start {fs : List Formal} (h : FormalsWellFormed fs) (hrest : rest.head? ≠ some '<') :
    run .start 0 (formalsSpelling fs ++ rest) =
      (run .body (width (formalsSpelling fs)) rest).after (fs.flatMap Formal.deliveries) := by
  cases fs with
  | nil =>
    cases rest with
    | nil => rfl
    | cons c rest =>
      have hc : c ≠ '<' := fun hc => hrest (by simp [hc])
      simp [formalsSpelling, run_cons, State.step, hc]
  | cons f fs =>
    have hformals := run_formals h 1 rest
    simp only [List.flatMap_cons, List.append_assoc] at hformals
    simp [formalsSpelling, run_cons, State.step, hformals]
    simp [Nat.add_assoc, Nat.add_comm]

theorem run_classTree {t : ClassTree} (h : t.WellFormed) :
    run .start 0 t.spelling = ⟨t.deliveries, none⟩ := by
  obtain ⟨c, cs, hcs, hc, -⟩ := h.superclass.spelling_cons
  have hrest : (t.superclass.spelling ++ t.interfaces.flatMap TypeTree.spelling).head? ≠
      some '<' := by
    have hne : c ≠ '<' := ne_of_class hc rfl
    simp [hcs, hne]
  have hstep : ∀ c, opensType c → (opensClassBound c ↔ ¬t.superclass.isBase) →
      State.body.step (width (formalsSpelling t.formals)) c = .after ⟨0, .superclass⟩
        (beginType (width (formalsSpelling t.formals)) rootPlace ⟨.supertype, []⟩ c) := by
    intro c hc _
    have hne : c ≠ '(' := ne_of_class hc rfl
    simp [State.step, openBody, hne]
  have hinterfaces := run_interfaces h.interfaces
    (width (formalsSpelling t.formals) + width t.superclass.spelling) []
  rw [List.append_nil] at hinterfaces
  rw [ClassTree.spelling, run_start h.formals hrest,
    run_begins rootPlace h.superclass hstep, run_rootType h.superclass]
  simp [Context.after, hinterfaces, ClassTree.deliveries, announced, after, run_nil, State.finish]

theorem run_methodTree {t : MethodTree} (h : t.WellFormed) :
    run .start 0 t.spelling = ⟨t.deliveries, none⟩ := by
  have hexceptions := fun offset => run_exceptions h.exceptions offset []
  simp only [List.append_nil] at hexceptions
  rw [MethodTree.spelling, run_start h.formals (by simp)]
  simp [run_cons, State.step, openBody, run_parameters h.parameters, MethodTree.ending,
    proceed_rootType, run_rootType h.result,
    Context.after, hexceptions, MethodTree.deliveries, announced, after, run_nil, State.finish]

theorem run_bareType {t : TypeTree} (h : t.WellFormed 0) :
    run (.type ⟨0, 0⟩ ⟨.whole, []⟩) 0 t.spelling = ⟨t.deliveries 0, none⟩ := by
  have hdimensions := h.dimensions_le
  have hawaits : Awaits ⟨.whole, []⟩ (.type ⟨0, 0⟩ ⟨.whole, []⟩) ⟨0, 0⟩ 0 := .type h.depth_le
  have htype := run_type hawaits 0 [] t h (by simpa using hdimensions)
  rw [List.append_nil] at htype
  simp [htype, Context.after, after, run_nil, State.finish]

/-- Reading the text of a well-formed signature gives the events of the signature, and no
fault. -/
theorem ofKind_text {d : Document} (h : d.WellFormed) :
    ofKind d.kind d.text = ⟨d.deliveries, none⟩ := by
  rw [d.text_eq]
  cases d with
  | ofClass tree =>
    simpa [Document.kind, ofKind, ofDeclaration, Document.spelling, Document.deliveries]
      using run_classTree h
  | ofMethod tree =>
    simpa [Document.kind, ofKind, ofDeclaration, Document.spelling, Document.deliveries]
      using run_methodTree h
  | ofType tree =>
    simpa [Document.kind, ofKind, ofType, Document.spelling, Document.deliveries]
      using run_bareType h

end Reading

end ClassUnit.Signature
