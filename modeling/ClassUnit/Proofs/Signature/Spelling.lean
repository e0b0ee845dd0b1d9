import ClassUnit.Signature.Writer

/-! # Spelling of signature trees

The characters of a tree, by recursion on the tree, and the proof that a writer which is given the
events of the tree puts exactly these characters (`Writer.writeAll_type` for a type,
`Document.text_eq` for a whole signature). The writer carries flags and a stack from one event to
the next; none of them is left changed by a complete type. -/

namespace ClassUnit.Signature

/-- What stands in front of the bound of an argument. -/
def Variance.mark : Variance → Bool → List Char
  | .exact, false => []
  | variance, false => [variance.tag]
  | _, true => [Variance.exact.tag]

/-- What announces the bound of an argument. -/
def Variance.event (variance : Variance) (tagged : Bool) : Event :=
  if tagged then .tagged else .argument variance

theorem Argument.deliveries_bounded : (Argument.bounded variance bound tagged).deliveries level =
    ⟨level, variance.event tagged⟩ :: bound.deliveries (level + 1) := by
  cases tagged <;> rfl

mutual

def TypeTree.spelling : TypeTree → List Char
  | .base code => [code]
  | .typeVariable name => 'T' :: (name.toList ++ [';'])
  | .array element => '[' :: element.spelling
  | .classType outer inners => 'L' :: (outer.spelling ++ (segmentsSpelling inners ++ [';']))

/-- A segment is its name and, where it has arguments, these in brackets. -/
def Segment.spelling : Segment → List Char
  | .mk name arguments =>
    name.toList ++
      if arguments.isEmpty then [] else '<' :: (argumentsSpelling arguments ++ ['>'])

def Argument.spelling : Argument → List Char
  | .unbounded => ['*']
  | .bounded variance bound tagged => variance.mark tagged ++ bound.spelling

def argumentsSpelling : List Argument → List Char
  | [] => []
  | a :: as => a.spelling ++ argumentsSpelling as

def segmentsSpelling : List Segment → List Char
  | [] => []
  | s :: ss => '.' :: (s.spelling ++ segmentsSpelling ss)

end

def Formal.spelling (f : Formal) : List Char :=
  f.name.toList ++ ':' :: (f.classBound.toList.flatMap TypeTree.spelling ++
    f.interfaceBounds.flatMap fun t => ':' :: t.spelling)

def formalsSpelling (fs : List Formal) : List Char :=
  if fs.isEmpty then [] else '<' :: (fs.flatMap Formal.spelling ++ ['>'])

def ClassTree.spelling (t : ClassTree) : List Char :=
  formalsSpelling t.formals ++ (t.superclass.spelling ++ t.interfaces.flatMap TypeTree.spelling)

/-- What follows the parameters of a method. -/
def MethodTree.ending (t : MethodTree) : List Char :=
  ')' :: (t.result.spelling ++ t.exceptions.flatMap fun e => '^' :: e.spelling)

def MethodTree.spelling (t : MethodTree) : List Char :=
  formalsSpelling t.formals ++ '(' :: (t.parameters.flatMap TypeTree.spelling ++ t.ending)

def Document.spelling : Document → List Char
  | .ofClass tree => tree.spelling
  | .ofMethod tree => tree.spelling
  | .ofType tree => tree.spelling

/-! ## Writing a type -/

namespace Writer

/-- The writer after a number of deliveries, whoever receives them. -/
def writeAll (w : Writer) (ds : List Delivery) : Writer := w.write (ds.map (·.event))

@[simp] theorem writeAll_nil (w : Writer) : w.writeAll [] = w := rfl

@[simp] theorem writeAll_cons (w : Writer) (d : Delivery) (ds : List Delivery) :
    w.writeAll (d :: ds) = (w.step d.event).writeAll ds := rfl

@[simp] theorem writeAll_append (w : Writer) (ds es : List Delivery) :
    w.writeAll (ds ++ es) = (w.writeAll ds).writeAll es := by
  simp [writeAll, write]

def putChars (w : Writer) (cs : List Char) : Writer := w.put (String.ofList cs)

@[simp] theorem putChars_nil (w : Writer) : w.putChars [] = w := by
  simp [putChars, put]

@[simp] theorem putChars_putChars (w : Writer) (cs ds : List Char) :
    (w.putChars cs).putChars ds = w.putChars (cs ++ ds) := by
  simp [putChars, put, String.append_assoc]

theorem put_eq (w : Writer) (s : String) : w.put s = w.putChars s.toList := by
  simp [putChars]

/-- The argument list of the innermost segment has begun. -/
def InArguments (w : Writer) : Prop := ∃ rest, w.segments = true :: rest

theorem InArguments.putChars {w : Writer} (h : w.InArguments) (cs : List Char) :
    (w.putChars cs).InArguments := h

theorem InArguments.beginArguments_eq {w : Writer} (h : w.InArguments) : w.beginArguments = w := by
  obtain ⟨rest, h⟩ := h
  simp [beginArguments, h]

theorem beginSegment_endSegment (w : Writer) : w.beginSegment.endSegment = w := rfl

theorem beginSegment_beginArguments (w : Writer) : w.beginSegment.beginArguments.InArguments :=
  ⟨w.segments, rfl⟩

/-- An argument list that was begun and filled is closed by its segment. -/
theorem beginArguments_endSegment (w : Writer) (cs : List Char) :
    (w.beginSegment.beginArguments.putChars cs).endSegment = w.putChars ('<' :: (cs ++ ['>'])) := by
  simp [beginSegment, beginArguments, endSegment, putChars, put, String.ofList_cons,
    String.append_assoc]

theorem step_argument (w : Writer) (variance : Variance) (tagged : Bool) :
    w.step (variance.event tagged) = w.beginArguments.putChars (variance.mark tagged) := by
  cases tagged <;> cases variance <;> simp [step, Variance.event, Variance.mark, put_eq]

mutual

/-- A writer that is given a type puts its characters, and is otherwise as it was. -/
theorem writeAll_type (w : Writer) (level : Nat) :
    ∀ t : TypeTree, w.writeAll (t.deliveries level) = w.putChars t.spelling
  | .base code => by
    simp [TypeTree.deliveries, TypeTree.spelling, step, put_eq]
  | .typeVariable name => by
    simp [TypeTree.deliveries, TypeTree.spelling, step, put_eq]
  | .array element => by
    simp [TypeTree.deliveries, TypeTree.spelling, step, put_eq,
      writeAll_type _ (level + 1) element]
  | .classType outer inners => by
    simp [TypeTree.deliveries, TypeTree.spelling, step, put_eq,
      writeAll_segments _ level inners, writeAll_outer _ level outer]

theorem writeAll_outer (w : Writer) (level : Nat) : ∀ s : Segment,
    (w.writeAll (s.deliveries level .classType)).endSegment = w.putChars ('L' :: s.spelling)
  | .mk name arguments => by
    simp [Segment.deliveries, Segment.spelling, step, put_eq,
      writeAll_argumentList _ level arguments]

theorem writeAll_inner (w : Writer) (level : Nat) : ∀ s : Segment,
    (w.writeAll (s.deliveries level .innerClass)).endSegment =
      w.endSegment.putChars ('.' :: s.spelling)
  | .mk name arguments => by
    simp [Segment.deliveries, Segment.spelling, step, put_eq,
      writeAll_argumentList _ level arguments]

theorem writeAll_segments (w : Writer) (level : Nat) : ∀ ss : List Segment,
    (w.writeAll (segmentDeliveries level ss)).endSegment =
      w.endSegment.putChars (segmentsSpelling ss)
  | [] => by simp [segmentDeliveries, segmentsSpelling]
  | s :: ss => by
    simp [segmentDeliveries, segmentsSpelling, writeAll_segments _ level ss,
      writeAll_inner w level s]

theorem writeAll_argumentList (w : Writer) (level : Nat) : ∀ as : List Argument,
    (w.beginSegment.writeAll (argumentDeliveries level as)).endSegment =
      w.putChars (if as.isEmpty then [] else '<' :: (argumentsSpelling as ++ ['>']))
  | [] => by simp [argumentDeliveries, beginSegment_endSegment]
  | a :: as => by
    have h := (beginSegment_beginArguments w).putChars a.spelling
    simp [argumentDeliveries, argumentsSpelling, writeAll_argument _ level a,
      writeAll_arguments _ h level as, beginArguments_endSegment]

theorem writeAll_arguments (w : Writer) (h : w.InArguments) (level : Nat) : ∀ as : List Argument,
    w.writeAll (argumentDeliveries level as) = w.putChars (argumentsSpelling as)
  | [] => by simp [argumentDeliveries, argumentsSpelling]
  | a :: as => by
    simp [argumentDeliveries, argumentsSpelling, writeAll_argument w level a, h.beginArguments_eq,
      writeAll_arguments _ (h.putChars _) level as]

theorem writeAll_argument (w : Writer) (level : Nat) : ∀ a : Argument,
    w.writeAll (a.deliveries level) = w.beginArguments.putChars a.spelling
  | .unbounded => by simp [Argument.deliveries, Argument.spelling, step, put_eq]
  | .bounded variance bound tagged => by
    simp [Argument.deliveries_bounded, Argument.spelling, step_argument,
      writeAll_type _ (level + 1) bound]

end

/-! ## Writing a signature

Between signatures the formal type parameters are closed, while a parameter list that was opened
once counts as open for good. -/

theorem writeAll_announced (w : Writer) (event : Event) (t : TypeTree) :
    w.writeAll (announced event t) = (w.step event).putChars t.spelling := by
  simp [announced, writeAll_type]

theorem writeAll_formal (w : Writer) (h : w.inFormals = true) (f : Formal) :
    w.writeAll f.deliveries = w.putChars f.spelling := by
  have hbounds : ∀ (ts : List TypeTree) (w : Writer),
      w.writeAll (ts.flatMap (announced .interfaceBound)) =
        w.putChars (ts.flatMap fun t => ':' :: t.spelling) := by
    intro ts
    induction ts with
    | nil => simp
    | cons t ts ih => intro w; simp [writeAll_announced, ih, step, put_eq]
  obtain ⟨name, bound, bounds⟩ := f
  cases bound with
  | none => simp [Formal.deliveries, Formal.spelling, step, h, put_eq, hbounds]
  | some bound =>
    simp [Formal.deliveries, Formal.spelling, step, h, put_eq, hbounds, writeAll_announced]

theorem writeAll_formals (w : Writer) (h : w.inFormals = true) (fs : List Formal) :
    w.writeAll (fs.flatMap Formal.deliveries) = w.putChars (fs.flatMap Formal.spelling) := by
  induction fs generalizing w with
  | nil => simp
  | cons f fs ih => simp [writeAll_formal w h, ih (w.putChars f.spelling) h]

/-- Formal type parameters are written with their brackets once something closes them. -/
theorem writeAll_formalList (w : Writer) (h : w.inFormals = false) (fs : List Formal) :
    (w.writeAll (fs.flatMap Formal.deliveries)).endFormals = w.putChars (formalsSpelling fs) := by
  cases fs with
  | nil => simp [formalsSpelling, endFormals, h]
  | cons f fs =>
    have hopen : w.writeAll f.deliveries =
        ({ w with inFormals := true }.put "<").writeAll f.deliveries := by
      simp [Formal.deliveries, step, h, put]
    have hall := writeAll_formals ({ w with inFormals := true }.put "<") rfl (f :: fs)
    rw [List.flatMap_cons, writeAll_append, hopen, ← writeAll_append, ← List.flatMap_cons, hall]
    obtain ⟨text, inFormals, hasParameters, segments⟩ := w
    cases h
    simp [formalsSpelling, endFormals, putChars, put, String.ofList_cons, String.append_assoc]

theorem writeAll_interfaces (w : Writer) (ts : List TypeTree) :
    w.writeAll (ts.flatMap (announced .interface)) = w.putChars (ts.flatMap TypeTree.spelling) := by
  induction ts generalizing w with
  | nil => simp
  | cons t ts ih => simp [writeAll_announced, ih, step]

theorem writeAll_exceptions (w : Writer) (ts : List TypeTree) :
    w.writeAll (ts.flatMap (announced .exception)) =
      w.putChars (ts.flatMap fun t => '^' :: t.spelling) := by
  induction ts generalizing w with
  | nil => simp
  | cons t ts ih => simp [writeAll_announced, ih, step, put_eq]

theorem writeAll_classTree (w : Writer) (h : w.inFormals = false) (t : ClassTree) :
    w.writeAll t.deliveries = w.putChars t.spelling := by
  simp [ClassTree.deliveries, ClassTree.spelling, writeAll_announced, writeAll_interfaces, step,
    writeAll_formalList w h]

/-- The bracket that a parameter list still needs. -/
def opening (w : Writer) : List Char := if w.hasParameters then [] else ['(']

/-- The writer once a list of parameters has been opened, if there were any. -/
def opened (w : Writer) (ts : List TypeTree) : Writer :=
  { w with hasParameters := w.hasParameters || !ts.isEmpty }

@[simp] theorem opening_putChars (w : Writer) (cs : List Char) :
    (w.putChars cs).opening = w.opening := rfl

@[simp] theorem opened_putChars (w : Writer) (cs : List Char) (ts : List TypeTree) :
    (w.putChars cs).opened ts = (w.opened ts).putChars cs := rfl

/-- The first parameter opens the list. -/
theorem step_parameter (w : Writer) (h : w.inFormals = false) (t : TypeTree) (ts : List TypeTree) :
    w.step .parameter = (w.opened (t :: ts)).putChars w.opening := by
  obtain ⟨text, inFormals, hasParameters, segments⟩ := w
  cases h
  cases hasParameters <;> simp [step, endFormals, put_eq, opened, opening]

theorem step_result (w : Writer) (h : w.inFormals = false) :
    w.step .result = w.putChars (w.opening ++ [')']) := by
  cases hp : w.hasParameters <;> simp [step, endFormals, h, hp, put_eq, opening]

/-- Further parameters, once a parameter list is open. -/
theorem writeAll_moreParameters (w : Writer) (h : w.inFormals = false)
    (hp : w.hasParameters = true) (ts : List TypeTree) :
    w.writeAll (ts.flatMap (announced .parameter)) = w.putChars (ts.flatMap TypeTree.spelling) := by
  induction ts generalizing w with
  | nil => simp
  | cons t ts ih =>
    have hstep : w.step .parameter = w := by simp [step, endFormals, h, hp]
    simp [writeAll_announced, hstep, ih (w.putChars t.spelling) h hp]

/-- The parameters and the start of the result. The list is opened by the first parameter, or for
want of one by the result, unless an earlier signature has done so. -/
theorem writeAll_parameters (w : Writer) (h : w.inFormals = false) (ts : List TypeTree) :
    (w.writeAll (ts.flatMap (announced .parameter))).step .result =
      (w.opened ts).putChars (w.opening ++ (ts.flatMap TypeTree.spelling ++ [')'])) := by
  cases ts with
  | nil => simp [step_result w h, opened]
  | cons t ts =>
    have hopen : (w.opened (t :: ts)).hasParameters = true := by simp [opened]
    have hclose : (w.opened (t :: ts)).opening = [] := by simp [opening, hopen]
    have hmore := writeAll_moreParameters ((w.opened (t :: ts)).putChars (w.opening ++ t.spelling))
      h hopen ts
    rw [List.flatMap_cons, writeAll_append, writeAll_announced, step_parameter w h t ts,
      putChars_putChars, hmore, step_result]
    · simp [hclose]
    · exact h

theorem endFormals_endFormals (w : Writer) : w.endFormals.endFormals = w.endFormals := by
  cases h : w.inFormals <;> simp [endFormals, h, put]

/-- The first parameter, or for want of one the result, closes the formal type parameters. -/
theorem writeAll_parameters_endFormals (w : Writer) (ts : List TypeTree) :
    (w.endFormals.writeAll (ts.flatMap (announced .parameter))).step .result =
      (w.writeAll (ts.flatMap (announced .parameter))).step .result := by
  cases ts <;> simp [writeAll_announced, step, endFormals_endFormals]

theorem writeAll_methodTree (w : Writer) (h : w.inFormals = false) (t : MethodTree) :
    w.writeAll t.deliveries =
      (w.opened t.parameters).putChars
        (formalsSpelling t.formals ++
          (w.opening ++ (t.parameters.flatMap TypeTree.spelling ++ t.ending))) := by
  have hparameters := writeAll_parameters (w.putChars (formalsSpelling t.formals)) h t.parameters
  rw [← writeAll_formalList w h, writeAll_parameters_endFormals, writeAll_formalList w h]
    at hparameters
  simp [MethodTree.deliveries, MethodTree.ending, writeAll_announced, hparameters,
    writeAll_exceptions]

end Writer

/-- A method signature with at least one parameter. -/
def Document.takesParameters : Document → Bool
  | .ofMethod tree => !tree.parameters.isEmpty
  | _ => false

/-- The spelling of a signature without the bracket that opens its parameter list. -/
def Document.unopened : Document → List Char
  | .ofMethod tree =>
    formalsSpelling tree.formals ++ (tree.parameters.flatMap TypeTree.spelling ++ tree.ending)
  | d => d.spelling

/-- Of a writer between two signatures, one more changes the text and the flag of the parameter
list, and nothing else. -/
theorem Writer.writeAll_document (w : Writer) (h : w.inFormals = false) (d : Document) :
    w.writeAll d.deliveries =
      ({ w with hasParameters := w.hasParameters || d.takesParameters } : Writer).putChars
        (if w.hasParameters then d.unopened else d.spelling) := by
  cases d with
  | ofClass tree =>
    simp [Document.deliveries, writeAll_classTree w h, Document.takesParameters,
      Document.unopened, Document.spelling]
  | ofMethod tree =>
    cases hp : w.hasParameters <;>
      simp [Document.deliveries, writeAll_methodTree w h, Document.takesParameters,
        Document.unopened, Document.spelling, MethodTree.spelling, opened, opening, hp]
  | ofType tree =>
    simp [Document.deliveries, writeAll_type, Document.takesParameters, Document.unopened,
      Document.spelling]

/-- The text of a signature is its spelling. -/
theorem Document.text_eq (d : Document) : d.text = String.ofList d.spelling := by
  have h : d.text = (({} : Writer).writeAll d.deliveries).text := rfl
  simp [h, Writer.writeAll_document, Writer.putChars, Writer.put]

theorem TypeTree.toList_text (t : TypeTree) : t.text.toList = t.spelling := by
  have h : t.text = (Document.ofType t).text := rfl
  rw [h, Document.text_eq, String.toList_ofList, Document.spelling]

end ClassUnit.Signature
