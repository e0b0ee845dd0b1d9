import ClassUnit.Proofs.Proxy.Descriptors
import ClassUnit.Proofs.Signature.Decoding

/-! # Grammar of descriptors

A descriptor is read as a signature, and then refused if anything in it is generic. What is left is
a grammar of its own (`Method.Splits`), in which a text can be split in one way only, although class
names may hold brackets and parentheses (`Method.descriptor_grammar`). -/

namespace ClassUnit.Proxy
open Signature (TypeTree MethodTree Document endsSegment)
open Signature.Reader (maxNesting maxDimensions isBaseCode)

namespace Method

/-- The name of a method is not empty and holds none of the characters that separate names. -/
def IsName (name : String) : Prop := name ≠ "" ∧ ∀ c ∈ name.toList, c ∉ ['.', ';', '[', '/']

/-- The spelling of a base type, or of a class by its name. -/
inductive Element : List Char → Prop
  | base {code : Char} (hcode : code ∈ ['Z', 'C', 'B', 'S', 'I', 'F', 'J', 'D', 'V']) :
    Element [code]
  | ofClass {name : List Char} (hname : name ≠ []) (hplain : ∀ c ∈ name, c ∉ ['.', ';', '<']) :
    Element ('L' :: (name ++ [';']))

/-- The text of a type: an element, or an array of elements with at most 255 dimensions. -/
def IsType (text : String) : Prop :=
  ∃ n element, n ≤ 255 ∧ Element element ∧ text.toList = List.replicate n '[' ++ element

/-- The descriptor is the types of the parameters, in parentheses, and the type of the result. -/
structure Splits (descriptor : String) (parameters : List String) (result : String) : Prop where
  parameters_types : ∀ p ∈ parameters, IsType p
  result_type : IsType result
  text : descriptor = "(" ++ String.join parameters ++ ")" ++ result

theorem validName_iff {name : String} : validName name ↔ IsName name := by
  simp [validName, IsName]

theorem not_endsSegment_iff {c : Char} : ¬endsSegment c ↔ c ∉ ['.', ';', '<'] := by
  simp [endsSegment, and_assoc]

/-! ## Types -/

/-- The type of arrays of elements, with this number of dimensions. -/
def arrayOf : Nat → TypeTree → TypeTree
  | 0, t => t
  | n + 1, t => .array (arrayOf n t)

theorem Element.exists_tree {element : List Char} (h : Element element) :
    ∃ t : TypeTree, t.dimensions = 0 ∧ genericPart t = none ∧ t.spelling = element ∧
      ∀ depth ≤ maxNesting, t.WellFormed depth := by
  cases h with
  | @base code hcode =>
    have hbase : isBaseCode code := by simpa [isBaseCode] using hcode
    exact ⟨.base code, rfl, rfl, rfl, fun depth hdepth => ⟨hdepth, hbase⟩⟩
  | @ofClass name hname hplain =>
    refine ⟨.classType (.mk (String.ofList name) []) [], rfl, rfl, ?_, fun depth hdepth => ?_⟩
    · simp [TypeTree.spelling, Signature.Segment.spelling, Signature.segmentsSpelling]
    · refine ⟨hdepth, ⟨by simpa using hname, fun c hc => ?_, trivial⟩, trivial⟩
      exact not_endsSegment_iff.2 (hplain c (by simpa using hc))

theorem arrayOf_spelling (n : Nat) (t : TypeTree) :
    (arrayOf n t).spelling = List.replicate n '[' ++ t.spelling := by
  induction n with
  | zero => rfl
  | succ n ih => rw [arrayOf, TypeTree.spelling, ih, List.replicate_succ, List.cons_append]

theorem arrayOf_genericPart (n : Nat) (t : TypeTree) :
    genericPart (arrayOf n t) = genericPart t := by
  induction n with
  | zero => rfl
  | succ n ih => rw [arrayOf, genericPart, ih]

theorem arrayOf_dimensions (n : Nat) {t : TypeTree} (h : t.dimensions = 0) :
    (arrayOf n t).dimensions = n := by
  induction n with
  | zero => exact h
  | succ n ih => rw [arrayOf, TypeTree.dimensions, ih]

theorem arrayOf_wellFormed {n depth : Nat} {t : TypeTree} (hn : n ≤ maxDimensions)
    (hdepth : depth + n ≤ maxNesting) (hdimensions : t.dimensions = 0)
    (ht : t.WellFormed (depth + n)) : (arrayOf n t).WellFormed depth := by
  induction n generalizing depth with
  | zero => exact ht
  | succ n ih =>
    refine ⟨by omega, ?_, ih (by omega) (by omega) ?_⟩
    · rw [TypeTree.dimensions, arrayOf_dimensions n hdimensions]
      exact hn
    · rwa [Nat.add_assoc, Nat.add_comm 1 n]

/-- Nothing generic is left under the arrays either. -/
theorem exists_element {depth : Nat} : ∀ {t : TypeTree}, t.WellFormed depth →
    genericPart t = none → ∃ element, Element element ∧
      t.spelling = List.replicate t.dimensions '[' ++ element
  | .base code, ⟨_, hcode⟩, _ => ⟨[code], .base (by simpa [isBaseCode] using hcode), rfl⟩
  | .array element, ⟨_, _, helement⟩, hgeneric => by
    obtain ⟨word, hword, hspelling⟩ := exists_element helement hgeneric
    refine ⟨word, hword, ?_⟩
    rw [TypeTree.spelling, hspelling, TypeTree.dimensions, List.replicate_succ, List.cons_append]
  | .classType (.mk name arguments) inners, ⟨_, ⟨hname, hplain, _⟩, _⟩, hgeneric => by
    obtain ⟨rfl, rfl⟩ : arguments = [] ∧ inners = [] := by
      cases arguments <;> cases inners <;>
        simp [genericPart, Signature.Segment.arguments] at hgeneric ⊢
    have hname' : name.toList ≠ [] := by simpa using hname
    refine ⟨_, .ofClass hname' fun c hc => not_endsSegment_iff.1 (hplain c hc), ?_⟩
    simp [TypeTree.spelling, Signature.Segment.spelling, Signature.segmentsSpelling,
      TypeTree.dimensions]

/-- The texts of types are the spellings of the trees that a descriptor may hold. -/
theorem isType_iff {text : String} :
    IsType text ↔ ∃ t : TypeTree, t.WellFormed 0 ∧ genericPart t = none ∧ t.text = text := by
  constructor
  · rintro ⟨n, element, hn, helement, htext⟩
    obtain ⟨t, hdimensions, hgeneric, hspelling, ht⟩ := helement.exists_tree
    have hdepth : 0 + n ≤ maxNesting := by
      rw [maxNesting]
      omega
    refine ⟨arrayOf n t, arrayOf_wellFormed hn hdepth hdimensions (ht _ hdepth), ?_, ?_⟩
    · rw [arrayOf_genericPart, hgeneric]
    · rw [← String.toList_inj, TypeTree.toList_text, arrayOf_spelling, hspelling, htext]
  · rintro ⟨t, ht, hgeneric, rfl⟩
    obtain ⟨element, helement, hspelling⟩ := exists_element ht hgeneric
    refine ⟨t.dimensions, element, ht.dimensions_le, helement, ?_⟩
    rw [TypeTree.toList_text, hspelling]

theorem areTypes_iff {texts : List String} :
    (∀ text ∈ texts, IsType text) ↔ ∃ ts : List TypeTree,
      (∀ t ∈ ts, t.WellFormed 0 ∧ genericPart t = none) ∧ ts.map TypeTree.text = texts := by
  constructor
  · intro h
    induction texts with
    | nil => exact ⟨[], List.forall_mem_nil _, rfl⟩
    | cons text texts ih =>
      obtain ⟨htext, htexts⟩ := List.forall_mem_cons.1 h
      obtain ⟨t, ht, hgeneric, rfl⟩ := isType_iff.1 htext
      obtain ⟨ts, hts, rfl⟩ := ih htexts
      exact ⟨t :: ts, List.forall_mem_cons.2 ⟨⟨ht, hgeneric⟩, hts⟩, rfl⟩
  · rintro ⟨ts, hts, rfl⟩
    rw [List.forall_mem_map]
    exact fun t ht => isType_iff.2 ⟨t, (hts t ht).1, (hts t ht).2, rfl⟩

/-! ## Descriptors -/

variable {name descriptor result : String} {parameters : List String} {m : Method}

/-- A text can be split if it is that of a signature in which nothing is generic. -/
theorem splits_iff :
    Splits descriptor parameters result ↔ ∃ t : MethodTree, t.WellFormed ∧ Erased t ∧
      (Document.ofMethod t).text = descriptor ∧ t.parameters.map TypeTree.text = parameters ∧
        t.result.text = result := by
  constructor
  · rintro ⟨hparameters, hresult, rfl⟩
    obtain ⟨ts, hts, rfl⟩ := areTypes_iff.1 hparameters
    obtain ⟨r, hr, hgeneric, rfl⟩ := isType_iff.1 hresult
    have herased : Erased ⟨[], ts, r, []⟩ := ⟨rfl, rfl, fun t ht => (hts t ht).2, hgeneric⟩
    refine ⟨⟨[], ts, r, []⟩, ⟨⟨List.forall_mem_nil _, .nil⟩, fun t ht => (hts t ht).1, hr,
      List.forall_mem_nil _⟩, herased, herased.text_eq, rfl, rfl⟩
  · rintro ⟨t, ht, herased, rfl, rfl, rfl⟩
    exact ⟨areTypes_iff.2 ⟨_, fun p hp => ⟨ht.parameters p hp, herased.parameters p hp⟩, rfl⟩,
      isType_iff.2 ⟨_, ht.result, herased.result, rfl⟩, herased.text_eq⟩

/-- The descriptor of a method is split as it was read, and in no other way. -/
theorem Accepted.splits_iff (h : m.Accepted) :
    Splits m.descriptor parameters result ↔
      parameters = m.parameters.map TypeTree.text ∧ result = m.result.text := by
  obtain ⟨-, hm, herased, htext, -⟩ := ofNameAndDescriptor_eq_ok_iff.1 h
  rw [Method.splits_iff]
  constructor
  · rintro ⟨t, ht, -, htext', rfl, rfl⟩
    have hparse := MethodTree.parse_eq_ok_iff.2 ⟨ht, htext'⟩
    cases hparse.symm.trans (MethodTree.parse_eq_ok_iff.2 ⟨hm, htext⟩)
    exact ⟨rfl, rfl⟩
  · rintro ⟨rfl, rfl⟩
    exact ⟨m.signature, hm, herased, htext, rfl, rfl⟩

theorem exists_method_iff :
    (∃ m, ofNameAndDescriptor name descriptor = .ok m) ↔
      IsName name ∧ ∃ parameters result, Splits descriptor parameters result := by
  simp only [ofNameAndDescriptor_eq_ok_iff, validName_iff, splits_iff]
  constructor
  · rintro ⟨m, hname, hm, herased, htext, -⟩
    exact ⟨hname, _, _, m.signature, hm, herased, htext, rfl, rfl⟩
  · rintro ⟨hname, _, _, t, ht, herased, htext, -⟩
    exact ⟨⟨name, descriptor, t⟩, hname, ht, herased, htext, rfl, rfl⟩

/-! ## Refusals -/

theorem ofNameAndDescriptor_of_not_isName (h : ¬IsName name) :
    ofNameAndDescriptor name descriptor = .error (.invalidMethodName name) := by
  rw [← validName_iff] at h
  simp [ofNameAndDescriptor, h]

/-- Only the descriptor can be wrong about a method with a name. -/
theorem ofNameAndDescriptor_of_isName (h : IsName name) :
    (∃ m, ofNameAndDescriptor name descriptor = .ok m) ∨
      ∃ cause,
        ofNameAndDescriptor name descriptor = .error (.invalidDescriptor descriptor cause) := by
  rw [← validName_iff] at h
  simp only [ofNameAndDescriptor, h, Bool.not_true, Bool.false_eq_true, if_false]
  cases MethodTree.parse descriptor with
  | error cause => exact .inr ⟨cause, rfl⟩
  | ok signature =>
    cases hreason : genericReason signature with
    | none =>
      simp only [hreason]
      exact .inl ⟨_, rfl⟩
    | some reason =>
      simp only [hreason]
      exact .inr ⟨_, rfl⟩

/-! ## JSON -/

theorem form_lists (name descriptor : String) :
    form.Lists [("name", .string name), ("descriptor", .string descriptor)] := .refl _

theorem Accepted.ofJson_toJson (h : m.Accepted) : ofJson m.toJson = .ok m := by
  have haccepted : ofNameAndDescriptor m.name m.descriptor = .ok m := h
  rw [ofJson, toJson, Json.Form.decode_object _ (form_lists _ _)]
  simp [haccepted]

theorem numberFree_toJson (m : Method) : m.toJson.NumberFree := ⟨trivial, trivial, trivial⟩

theorem refusesCut (m : Method) : Json.RefusesCut ofJson m.toJson :=
  (form.refusesCut (form_lists _ _) fun member _ s =>
    Json.Strict.refusesCut (.ite (Json.strict_string.field _ s.name _)
      (Json.strict_string.field _ s.descriptor _)) member.2).bind _

/-- Both texts of a method decode to the method. -/
theorem Accepted.recovers (h : m.Accepted) : Signature.Recovers ofJson m.toJson m :=
  Signature.recovers h.ofJson_toJson m.numberFree_toJson m.refusesCut

/-- Members other than the name and the descriptor are skipped. -/
theorem ofJson_skip {other : String} (hother : other ∉ form.fields)
    (ms ns : List (String × Json.Value)) (v : Json.Value) :
    ofJson (.object (ms ++ (other, v) :: ns)) = ofJson (.object (ms ++ ns)) := by
  rw [ofJson, ofJson, form.decode_skip rfl hother]

/-- Not even a number that is too great or half a surrogate pair in such a member is looked at. -/
example : (Json.decode ofJson
    "\x7b\"name\":\"f\",\"x\":[1e999,\"\\ud800\"],\"descriptor\":\"()V\"\x7d").map key =
      .ok "f()V" := rfl

/-! ## Acceptance -/

/-- A name and a descriptor are accepted if they fit the grammar, and the method that they make has
the parts that the descriptor can be split into. -/
theorem descriptor_grammar (name descriptor : String) :
    ((∃ m, ofNameAndDescriptor name descriptor = .ok m) ↔
        IsName name ∧ ∃ parameters result, Splits descriptor parameters result) ∧
      (¬IsName name →
        ofNameAndDescriptor name descriptor = .error (.invalidMethodName name)) ∧
      (IsName name → (¬∃ parameters result, Splits descriptor parameters result) →
        ∃ cause,
          ofNameAndDescriptor name descriptor = .error (.invalidDescriptor descriptor cause)) ∧
      ∀ m, ofNameAndDescriptor name descriptor = .ok m →
        m.name = name ∧ m.descriptor = descriptor ∧
          (∀ parameters result, Splits descriptor parameters result ↔
            parameters = m.parameters.map TypeTree.text ∧ result = m.result.text) ∧
          Json.decode ofJson m.toJson.compact = .ok m ∧
          Json.decode ofJson (m.toJson.pretty 0) = .ok m := by
  refine ⟨exists_method_iff, ofNameAndDescriptor_of_not_isName, fun hname hsplits => ?_, ?_⟩
  · rcases ofNameAndDescriptor_of_isName hname with haccepted | hrefused
    · exact absurd (exists_method_iff.1 haccepted).2 hsplits
    · exact hrefused
  · intro m h
    obtain ⟨-, -, -, -, rfl, rfl⟩ := ofNameAndDescriptor_eq_ok_iff.1 h
    have haccepted : m.Accepted := h
    exact ⟨rfl, rfl, fun _ _ => haccepted.splits_iff, haccepted.recovers⟩

/-- A method with a class whose name holds parentheses and a bracket, and with an array. -/
def sum : Method where
  name := "sum"
  descriptor := "(La(b)/[I;[[J)Z"
  signature :=
    { parameters := [.classType (.mk "a(b)/[I" []) [], .array (.array (.base 'J'))]
      result := .base 'Z' }

theorem descriptor_grammar_sum :
    ofNameAndDescriptor "" "()V" = .error (.invalidMethodName "") ∧
      (∃ cause, ofNameAndDescriptor "sum" "(I" = .error (.invalidDescriptor "(I" cause)) ∧
      ofNameAndDescriptor "sum" "(La(b)/[I;[[J)Z" = .ok sum ∧
        Splits "(La(b)/[I;[[J)Z" ["La(b)/[I;", "[[J"] "Z" ∧
        Json.decode ofJson sum.toJson.compact = .ok sum := by
  have hname : IsName "sum" := validName_iff.1 rfl
  have hunnamed : ¬IsName "" := fun h => h.1 rfl
  have hsum : ofNameAndDescriptor "sum" "(La(b)/[I;[[J)Z" = .ok sum := rfl
  have hunsplit : ¬∃ parameters result, Splits "(I" parameters result := by
    intro hsplits
    obtain ⟨m, hm⟩ := (descriptor_grammar "sum" "(I").1.2 ⟨hname, hsplits⟩
    cases hm
  obtain ⟨-, hrefusedName, -, -⟩ := descriptor_grammar "" "()V"
  obtain ⟨-, -, hrefused, -⟩ := descriptor_grammar "sum" "(I"
  obtain ⟨-, -, -, haccepted⟩ := descriptor_grammar "sum" "(La(b)/[I;[[J)Z"
  obtain ⟨-, -, hsplits, hcompact, -⟩ := haccepted sum hsum
  exact ⟨hrefusedName hunnamed, hrefused hname hunsplit, hsum, (hsplits _ _).2 ⟨rfl, rfl⟩, hcompact⟩

end Method

end ClassUnit.Proxy
