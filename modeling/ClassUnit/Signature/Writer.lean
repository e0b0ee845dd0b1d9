import ClassUnit.Signature.Tree

/-! # Writing signature texts

A writer prints the events that it is given, in whatever order they come. The delimiters that no
event carries follow from what it remembers: whether formal type parameters are open, whether a
parameter list was opened, and for each open class type whether its argument list has begun. -/

namespace ClassUnit.Signature

structure Writer where
  text : String := ""
  /-- Formal type parameters have begun and not ended. -/
  inFormals : Bool := false
  /-- A parameter list was opened by a parameter; it stays set from then on. -/
  hasParameters : Bool := false
  /-- One entry for each open segment, innermost first: its argument list has begun. -/
  segments : List Bool := []

namespace Writer

def put (w : Writer) (s : String) : Writer := { w with text := w.text ++ s }

/-- Closes the formal type parameters, if any are open. -/
def endFormals (w : Writer) : Writer :=
  if w.inFormals then { w with inFormals := false }.put ">" else w

/-- Leaves the innermost segment and closes its argument list, if that has begun. -/
def endSegment (w : Writer) : Writer :=
  match w.segments with
  | true :: rest => { w with segments := rest }.put ">"
  | false :: rest => { w with segments := rest }
  | [] => w

/-- Makes sure that an argument list has begun; outside of a class type one is begun all the
same. -/
def beginArguments (w : Writer) : Writer :=
  match w.segments with
  | true :: _ => w
  | false :: rest => { w with segments := true :: rest }.put "<"
  | [] => { w with segments := [true] }.put "<"

def beginSegment (w : Writer) : Writer := { w with segments := false :: w.segments }

def step (w : Writer) : Event → Writer
  | .formal name =>
    let w := if w.inFormals then w else { w with inFormals := true }.put "<"
    (w.put name).put ":"
  | .classBound | .interface => w
  | .interfaceBound => w.put ":"
  | .superclass => w.endFormals
  | .parameter =>
    let w := w.endFormals
    if w.hasParameters then w else { w with hasParameters := true }.put "("
  | .result =>
    let w := w.endFormals
    (if w.hasParameters then w else w.put "(").put ")"
  | .exception => w.put "^"
  | .base code => w.put code.toString
  | .typeVariable name => ((w.put "T").put name).put ";"
  | .array => w.put "["
  | .classType name => ((w.put "L").put name).beginSegment
  | .innerClass name => ((w.endSegment.put ".").put name).beginSegment
  | .unbounded => w.beginArguments.put "*"
  | .argument .exact => w.beginArguments
  | .argument variance => w.beginArguments.put variance.tag.toString
  | .tagged => w.beginArguments.put Variance.exact.tag.toString
  | .close => w.endSegment.put ";"

def write (w : Writer) (events : List Event) : Writer := events.foldl step w

end Writer

/-- The text of a sequence of events. -/
def text (events : List Event) : String := (({} : Writer).write events).text

def TypeTree.events (t : TypeTree) : List Event := (t.deliveries 0).map (·.event)

def TypeTree.text (t : TypeTree) : String := Signature.text t.events

def Document.text (d : Document) : String := Signature.text d.events

end ClassUnit.Signature
