import ClassUnit.Signature.Event
import ClassUnit.Signature.Fault

/-! # Reading signature texts

A signature is read left to right in one pass, one character at a time, and each event is
delivered as soon as the text before it has fixed it. What is still to come is kept in a `State`:
where the reader stands, and for a type the class types whose argument lists enclose it.

Nesting is limited twice. A type stands at a depth, which grows by one with each array and each
argument list around it and may not exceed `maxNesting`; and at most `maxDimensions` arrays may
follow one another directly. -/

namespace ClassUnit.Signature

namespace Reader

/-- The greatest depth of a type. -/
def maxNesting : Nat := 512

/-- The greatest number of array dimensions in a row. -/
def maxDimensions : Nat := 255

/-- The codes of the primitive types and of `void`. -/
def isBaseCode (c : Char) : Bool := ['Z', 'C', 'B', 'S', 'I', 'F', 'J', 'D', 'V'].contains c

/-- What a type outside of all argument lists is read for. It fixes what may follow. -/
inductive Slot
  | bound
  | supertype
  | parameter
  | result
  | whole
  deriving DecidableEq

/-- The level of the listener of a type, and the depth of the type. -/
structure Place where
  level : Nat
  depth : Nat
  deriving DecidableEq

/-- The surroundings of a type: the class types whose argument lists are open around it,
innermost first, and what the outermost type is read for. -/
structure Context where
  slot : Slot
  enclosing : List Place
  deriving DecidableEq

/-- Where a reader stands. Names under way are kept in reverse. -/
inductive State
  | start
  | formalName (nameStart : Nat) (name : List Char)
  | formalBounds
  | moreBounds
  | body
  | parameters
  | interfaces
  | exceptions
  | complete
  | type (place : Place) (context : Context)
  | element (place : Place) (dimensions : Nat) (context : Context)
  | variableName (level nameStart : Nat) (name : List Char) (context : Context)
  | segmentName (inner : Bool) (place : Place) (nameStart : Nat) (name : List Char)
    (context : Context)
  | arguments (place : Place) (fresh : Bool) (context : Context)
  | argumentsEnd (place : Place) (context : Context)
  deriving DecidableEq

/-- Where the reader stands once the type in this context is complete. -/
def Context.after : Context → State
  | ⟨slot, place :: enclosing⟩ => .arguments place false ⟨slot, enclosing⟩
  | ⟨.bound, []⟩ => .moreBounds
  | ⟨.supertype, []⟩ => .interfaces
  | ⟨.parameter, []⟩ => .parameters
  | ⟨.result, []⟩ => .exceptions
  | ⟨.whole, []⟩ => .complete

/-- The context of an argument of the class type at `place`. -/
def Context.within (context : Context) (place : Place) : Context :=
  ⟨context.slot, place :: context.enclosing⟩

def Place.inside (place : Place) : Place := ⟨place.level + 1, place.depth + 1⟩

/-- The effect of one character: the events that it fixes, and where the reader then stands. -/
structure Step where
  deliveries : List Delivery
  next : Except Fault State

namespace Step

def fail (offset : Nat) (reason : Reason) : Step := ⟨[], .error ⟨offset, reason⟩⟩

def go (state : State) : Step := ⟨[], .ok state⟩

def after (delivery : Delivery) (step : Step) : Step :=
  { step with deliveries := delivery :: step.deliveries }

end Step

/-- Turns to a type that begins at `offset`. Its depth is checked before it is looked at. -/
def expectType (offset : Nat) (place : Place) (context : Context) : Step :=
  if maxNesting < place.depth then .fail offset .nestingTooDeep
  else .go (.type place context)

/-- Reads the first character of a type whose depth has been checked. -/
def openType (offset : Nat) (place : Place) (context : Context) (c : Char) : Step :=
  if c = '[' then
    .after ⟨place.level, .array⟩ (.go (.element ⟨place.level + 1, place.depth⟩ 1 context))
  else if c = 'T' then .go (.variableName place.level (offset + 1) [] context)
  else if c = 'L' then .go (.segmentName false place (offset + 1) [] context)
  else if isBaseCode c then .after ⟨place.level, .base c⟩ (.go context.after)
  else .fail offset (.unexpectedCharacter c)

/-- Reads the first character of a type. -/
def beginType (offset : Nat) (place : Place) (context : Context) (c : Char) : Step :=
  if maxNesting < place.depth then .fail offset .nestingTooDeep
  else openType offset place context c

/-- A type that the root listener announces. -/
def rootPlace : Place := ⟨1, 0⟩

/-- Reads what may stand where neither a class bound nor a type can: a further interface bound,
the end of the formal type parameters, or the next name. -/
def continueFormals (offset : Nat) (c : Char) : Step :=
  if c = ':' then .after ⟨0, .interfaceBound⟩ (expectType (offset + 1) rootPlace ⟨.bound, []⟩)
  else if c = '>' then .go .body
  else .go (.formalName offset [c])

/-- Reads the first character after the formal type parameters. -/
def openBody (offset : Nat) (c : Char) : Step :=
  if c = '(' then .go .parameters
  else .after ⟨0, .superclass⟩ (beginType offset rootPlace ⟨.supertype, []⟩ c)

/-- Delivers the name of a segment that ends before `offset`, unless it is empty. -/
def endSegment (inner : Bool) (place : Place) (nameStart : Nat) (name : List Char) (step : Step) :
    Step :=
  if name.isEmpty then .fail nameStart .emptyName
  else
    let name := String.ofList name.reverse
    .after ⟨place.level, if inner then .innerClass name else .classType name⟩ step

/-- Reads `c`, which stands at `offset`. -/
def State.step (offset : Nat) (c : Char) : State → Step
  | .start => if c = '<' then .go (.formalName (offset + 1) []) else openBody offset c
  | .formalName nameStart name =>
    if c = ':' then
      if name.isEmpty then .fail nameStart .emptyName
      else .after ⟨0, .formal (String.ofList name.reverse)⟩ (.go .formalBounds)
    else .go (.formalName nameStart (c :: name))
  | .formalBounds =>
    if c = 'L' ∨ c = '[' ∨ c = 'T' then
      .after ⟨0, .classBound⟩ (beginType offset rootPlace ⟨.bound, []⟩ c)
    else continueFormals offset c
  | .moreBounds => continueFormals offset c
  | .body => openBody offset c
  | .parameters =>
    if c = ')' then .after ⟨0, .result⟩ (expectType (offset + 1) rootPlace ⟨.result, []⟩)
    else .after ⟨0, .parameter⟩ (beginType offset rootPlace ⟨.parameter, []⟩ c)
  | .interfaces => .after ⟨0, .interface⟩ (beginType offset rootPlace ⟨.supertype, []⟩ c)
  | .exceptions =>
    if c = '^' then .after ⟨0, .exception⟩ (expectType (offset + 1) rootPlace ⟨.result, []⟩)
    else .fail offset .unmarkedException
  | .complete => .fail offset .trailingCharacters
  | .type place context => openType offset place context c
  | .element place dimensions context =>
    if c = '[' then
      .after ⟨place.level, .array⟩ <|
        if maxDimensions < dimensions + 1 then .fail offset .tooManyDimensions
        else .go (.element place.inside (dimensions + 1) context)
    else beginType offset ⟨place.level, place.depth + 1⟩ context c
  | .variableName level nameStart name context =>
    if c = ';' then
      if name.isEmpty then .fail nameStart .emptyName
      else .after ⟨level, .typeVariable (String.ofList name.reverse)⟩ (.go context.after)
    else .go (.variableName level nameStart (c :: name) context)
  | .segmentName inner place nameStart name context =>
    if c = '.' then
      endSegment inner place nameStart name (.go (.segmentName true place (offset + 1) [] context))
    else if c = ';' then
      endSegment inner place nameStart name (.after ⟨place.level, .close⟩ (.go context.after))
    else if c = '<' then
      endSegment inner place nameStart name (.go (.arguments place true context))
    else .go (.segmentName inner place nameStart (c :: name) context)
  | .arguments place fresh context =>
    if c = '>' then
      if fresh then .fail offset .emptyArguments else .go (.argumentsEnd place context)
    else if c = '*' then
      .after ⟨place.level, .unbounded⟩ (.go (.arguments place false context))
    else if c = '=' then
      .after ⟨place.level, .tagged⟩ (expectType (offset + 1) place.inside (context.within place))
    else if c = '+' then
      .after ⟨place.level, .argument .extending⟩
        (expectType (offset + 1) place.inside (context.within place))
    else if c = '-' then
      .after ⟨place.level, .argument .superOf⟩
        (expectType (offset + 1) place.inside (context.within place))
    else
      .after ⟨place.level, .argument .exact⟩
        (beginType offset place.inside (context.within place) c)
  | .argumentsEnd place context =>
    if c = '.' then .go (.segmentName true place (offset + 1) [] context)
    else if c = ';' then .after ⟨place.level, .close⟩ (.go context.after)
    else .fail offset .openArguments

/-- What is wrong with a text that ends at `offset`, if anything is. -/
def State.finish (offset : Nat) : State → Option Fault
  | .complete | .interfaces | .exceptions => none
  | .formalName nameStart _ => some ⟨nameStart, .missing ':'⟩
  | .variableName _ nameStart _ _ => some ⟨nameStart, .missing ';'⟩
  | _ => some ⟨offset, .unexpectedEnd⟩

end Reader

/-- What became of a text: the events that it gave, and the fault that ended it early. -/
structure Reading where
  deliveries : List Delivery
  fault : Option Fault

namespace Reading

def events (r : Reading) : List Event := r.deliveries.map (·.event)

/-- Reads on from a state and an offset. -/
def run (state : Reader.State) (offset : Nat) : List Char → Reading
  | [] => ⟨[], state.finish offset⟩
  | c :: rest =>
    match state.step offset c with
    | ⟨deliveries, .error fault⟩ => ⟨deliveries, some fault⟩
    | ⟨deliveries, .ok next⟩ =>
      let reading := run next (offset + c.utf8Size) rest
      ⟨deliveries ++ reading.deliveries, reading.fault⟩

/-- Reads a class or method signature; the first character after the formal type parameters
decides which. -/
def ofDeclaration (text : String) : Reading := run .start 0 text.toList

/-- Reads a bare type. -/
def ofType (text : String) : Reading := run (.type ⟨0, 0⟩ ⟨.whole, []⟩) 0 text.toList

def ofKind (kind : Kind) (text : String) : Reading :=
  match kind with
  | .ofType => ofType text
  | .ofClass | .ofMethod => ofDeclaration text

/-- Goes on with another reading, unless a fault has ended the first. -/
def andThen (r s : Reading) : Reading :=
  if r.fault.isSome then r else ⟨r.deliveries ++ s.deliveries, s.fault⟩

/-- Reads class and method signatures one after another, up to the first fault. -/
def ofDeclarations (texts : List String) : Reading :=
  texts.foldr (fun text reading => (ofDeclaration text).andThen reading) ⟨[], none⟩

end Reading

end ClassUnit.Signature
