import Mathlib.Algebra.BigOperators.Group.List.Basic
import Mathlib.Algebra.Order.Group.Multiset
import ClassUnit.Proofs.Signature.Spelling

/-! # Events without their order

The events of a tree as a multiset, by recursion on the tree. The levels of their receivers do not
matter to it. -/

namespace ClassUnit.Signature

/-- The events of a sequence of deliveries, without their order. -/
def bag (ds : List Delivery) : Multiset Event := ↑(ds.map (·.event))

@[simp] theorem bag_nil : bag [] = 0 := rfl

@[simp] theorem bag_cons (d : Delivery) (ds : List Delivery) :
    bag (d :: ds) = {d.event} + bag ds := rfl

@[simp] theorem bag_append (ds es : List Delivery) : bag (ds ++ es) = bag ds + bag es := by
  simp [bag]

/-- The events of sequences one after the other are the sum of those of each. -/
theorem bag_flatMap (f : α → List Delivery) (xs : List α) :
    bag (xs.flatMap f) = (xs.map fun x => bag (f x)).sum := by
  induction xs with
  | nil => rfl
  | cons x xs ih => rw [List.flatMap_cons, bag_append, ih, List.map_cons, List.sum_cons]

/-! ## Events of a tree -/

mutual

/-- The events of a type, without their order. -/
def TypeTree.bag : TypeTree → Multiset Event
  | .base code => {.base code}
  | .typeVariable name => {.typeVariable name}
  | .array element => {.array} + element.bag
  | .classType outer inners => outer.bag .classType + segmentsBag inners + {.close}

def Segment.bag (announce : String → Event) : Segment → Multiset Event
  | .mk name arguments => {announce name} + argumentsBag arguments

def Argument.bag : Argument → Multiset Event
  | .unbounded => {.unbounded}
  | .bounded variance bound tagged => {variance.event tagged} + bound.bag

def argumentsBag : List Argument → Multiset Event
  | [] => 0
  | a :: as => a.bag + argumentsBag as

def segmentsBag : List Segment → Multiset Event
  | [] => 0
  | s :: ss => s.bag .innerClass + segmentsBag ss

end

mutual

/-- On any level the events of a type are those that the recursion counts. -/
theorem bag_type (level : Nat) : ∀ t : TypeTree, bag (t.deliveries level) = t.bag
  | .base _ | .typeVariable _ => rfl
  | .array element => by
    rw [TypeTree.deliveries, bag_cons, bag_type (level + 1) element, TypeTree.bag]
  | .classType outer inners => by
    rw [TypeTree.deliveries, bag_append, bag_append, bag_segment level .classType outer,
      bag_segments level inners, TypeTree.bag, add_assoc]
    rfl

theorem bag_segment (level : Nat) (announce : String → Event) :
    ∀ s : Segment, bag (s.deliveries level announce) = s.bag announce
  | .mk name arguments => by
    rw [Segment.deliveries, bag_cons, bag_arguments level arguments, Segment.bag]

theorem bag_argument (level : Nat) : ∀ a : Argument, bag (a.deliveries level) = a.bag
  | .unbounded => rfl
  | .bounded variance bound tagged => by
    rw [Argument.deliveries_bounded, bag_cons, bag_type (level + 1) bound, Argument.bag]

theorem bag_arguments (level : Nat) :
    ∀ as : List Argument, bag (argumentDeliveries level as) = argumentsBag as
  | [] => rfl
  | a :: as => by
    rw [argumentDeliveries, bag_append, bag_argument level a, bag_arguments level as, argumentsBag]

theorem bag_segments (level : Nat) :
    ∀ ss : List Segment, bag (segmentDeliveries level ss) = segmentsBag ss
  | [] => rfl
  | s :: ss => by
    rw [segmentDeliveries, bag_append, bag_segment level .innerClass s, bag_segments level ss,
      segmentsBag]

end

theorem argumentsBag_append (as bs : List Argument) :
    argumentsBag (as ++ bs) = argumentsBag as + argumentsBag bs := by
  induction as with
  | nil => rw [List.nil_append, argumentsBag, zero_add]
  | cons a as ih => rw [List.cons_append, argumentsBag, ih, argumentsBag, add_assoc]

/-- Segments that follow others add their events. -/
theorem segmentsBag_append (ss ts : List Segment) :
    segmentsBag (ss ++ ts) = segmentsBag ss + segmentsBag ts := by
  induction ss with
  | nil => rw [List.nil_append, segmentsBag, zero_add]
  | cons s ss ih => rw [List.cons_append, segmentsBag, ih, segmentsBag, add_assoc]

/-- The events of types that `event` announces one by one. -/
def announcedBag (event : Event) (ts : List TypeTree) : Multiset Event :=
  (ts.map fun t => {event} + t.bag).sum

/-- A type that is announced brings one event more. -/
theorem bag_announced (event : Event) (t : TypeTree) :
    bag (announced event t) = {event} + t.bag := by
  rw [announced, bag_cons, bag_type]

theorem bag_flatMap_announced (event : Event) (ts : List TypeTree) :
    bag (ts.flatMap (announced event)) = announcedBag event ts := by
  simp only [bag_flatMap, bag_announced, announcedBag]

@[simp] theorem announcedBag_nil (event : Event) : announcedBag event [] = 0 := rfl

@[simp] theorem announcedBag_cons (event : Event) (t : TypeTree) (ts : List TypeTree) :
    announcedBag event (t :: ts) = {event} + t.bag + announcedBag event ts := by
  rw [announcedBag, List.map_cons, List.sum_cons, announcedBag]

/-- The order in which types are announced does not matter. -/
@[simp] theorem announcedBag_reverse (event : Event) (ts : List TypeTree) :
    announcedBag event ts.reverse = announcedBag event ts :=
  ((List.reverse_perm ts).map _).sum_eq

def Formal.bag (f : Formal) : Multiset Event :=
  {.formal f.name} + announcedBag .classBound f.classBound.toList +
    announcedBag .interfaceBound f.interfaceBounds

/-- The name of a formal type parameter comes with its bounds, each of them announced. -/
theorem bag_formal (f : Formal) : bag f.deliveries = f.bag := by
  rw [Formal.deliveries, bag_cons, bag_append, bag_flatMap_announced, bag_flatMap_announced,
    Formal.bag, add_assoc]

/-- The events of formal type parameters. -/
def formalsBag (fs : List Formal) : Multiset Event := (fs.map Formal.bag).sum

theorem bag_flatMap_formal (fs : List Formal) :
    bag (fs.flatMap Formal.deliveries) = formalsBag fs := by
  simp only [bag_flatMap, bag_formal, formalsBag]

@[simp] theorem formalsBag_nil : formalsBag [] = 0 := rfl

@[simp] theorem formalsBag_cons (f : Formal) (fs : List Formal) :
    formalsBag (f :: fs) = f.bag + formalsBag fs := by
  rw [formalsBag, List.map_cons, List.sum_cons, formalsBag]

/-- The order of formal type parameters does not matter. -/
@[simp] theorem formalsBag_reverse (fs : List Formal) : formalsBag fs.reverse = formalsBag fs :=
  ((List.reverse_perm fs).map _).sum_eq

/-! ## Types that stand by themselves -/

/-- A type that nothing announces has the events of its tree. -/
theorem bag_events (t : TypeTree) : (↑t.events : Multiset Event) = t.bag := bag_type 0 t

theorem bag_flatMap_events (ts : List TypeTree) :
    (↑(ts.flatMap TypeTree.events) : Multiset Event) = (ts.map TypeTree.bag).sum := by
  induction ts with
  | nil => rfl
  | cons t ts ih =>
    rw [List.flatMap_cons, ← Multiset.coe_add, ih, bag_events, List.map_cons, List.sum_cons]

/-- No type is silent. -/
theorem events_ne_nil (t : TypeTree) : t.events ≠ [] := by
  cases t with
  | classType outer inners => cases outer; simp [TypeTree.events, TypeTree.deliveries]
  | _ => simp [TypeTree.events, TypeTree.deliveries]

end ClassUnit.Signature
