import ClassUnit.Proofs.Json.Decoding
import ClassUnit.Signature.Json

/-! # Decoding signature trees

A tree is decoded from the JSON that was made of it, whatever its names and codes are
(`TypeTree.ofJson_toJson` and its like). Together with the reader of JSON texts this gives the tree
back from its text, up to the nesting that a reader allows (`json_recovers`). -/

namespace ClassUnit.Signature
open Json (Value Decoded Origin Form itemsDepth membersDepth membersDepth_append itemsNumberFree
  itemsNumberFree_map membersNumberFree membersNumberFree_append membersLegible tagged_object
  adjacent_object list_map RefusesCut Strict)

/-! ## Members that may be left out -/

theorem names_listMember (name : String) (items : List Value) :
    ((listMember name items).map (·.1)).Sublist [name] := by
  cases items with
  | nil => exact List.nil_sublist _
  | cons v vs => exact List.Sublist.refl _

/-- A record takes such a member if the list has items, and goes on without it if not. -/
theorem foldlM_listMember (name : String) (items : List Value)
    (f : σ → String × Value → Decoded σ) (s : σ) :
    (listMember name items).foldlM f s = if items = [] then .ok s else f s (name, .array items) := by
  cases items with
  | nil => rfl
  | cons v vs =>
    have hone : [(name, Value.array (v :: vs))].foldlM f s = f s (name, .array (v :: vs)) := by
      rw [List.foldlM_cons]
      cases f s (name, .array (v :: vs)) <;> rfl
    exact hone

/-- Items are nested no deeper than the member that holds them. -/
theorem itemsDepth_le_listMember (name : String) (items : List Value) :
    itemsDepth items ≤ membersDepth (listMember name items) := by
  cases items with
  | nil => exact Nat.zero_le _
  | cons v vs => simp [listMember, membersDepth, Value.depth]

theorem membersNumberFree_listMember {items : List Value} (h : itemsNumberFree items)
    (name : String) : membersNumberFree (listMember name items) := by
  cases items with
  | nil => trivial
  | cons v vs => exact ⟨h, trivial⟩

theorem argumentsToJson_eq_nil_iff {as : List Argument} : argumentsToJson as = [] ↔ as = [] := by
  cases as <;> simp [argumentsToJson]

theorem segmentsToJson_eq_nil_iff {ss : List Segment} : segmentsToJson ss = [] ↔ ss = [] := by
  cases ss <;> simp [segmentsToJson]

/-- The name of a variance stands for it wherever it is decoded. -/
theorem Variance.ofJson_name (origin : Origin) (variance : Variance) :
    Variance.ofJson origin (.string variance.name) = .ok variance := by
  cases variance <;> rfl

/-! ## Types -/

theorem segmentForm_lists (s : Segment) : segmentForm.Lists s.toMembers := by
  obtain ⟨name, arguments⟩ := s
  exact (names_listMember "typeArguments" (argumentsToJson arguments)).cons_cons "name"

/-- A class type is one record with the members of its outermost class. -/
theorem classTypeForm_lists (outer : Segment) (inners : List Segment) :
    classTypeForm.Lists (outer.toMembers ++ listMember "innerClasses" (segmentsToJson inners)) := by
  rw [Form.Lists, List.map_append]
  exact (segmentForm_lists outer).append (names_listMember _ _)

mutual

/-- Trees hold names, codes and marks, and no numbers. -/
theorem TypeTree.numberFree_toJson : ∀ t : TypeTree, t.toJson.NumberFree
  | .base _ | .typeVariable _ => ⟨trivial, trivial, trivial⟩
  | .array element => ⟨trivial, element.numberFree_toJson, trivial⟩
  | .classType outer inners =>
    ⟨trivial, membersNumberFree_append (Segment.numberFree_toMembers outer)
      (membersNumberFree_listMember (numberFree_segments inners) _)⟩

theorem Segment.numberFree_toMembers : ∀ s : Segment, membersNumberFree s.toMembers
  | .mk _ arguments => ⟨trivial, membersNumberFree_listMember (numberFree_arguments arguments) _⟩

theorem Argument.numberFree_toJson : ∀ a : Argument, a.toJson.NumberFree
  | .unbounded => ⟨trivial, trivial⟩
  | .bounded _ bound true => ⟨trivial, trivial, bound.numberFree_toJson, trivial, trivial⟩
  | .bounded _ bound false => ⟨trivial, trivial, bound.numberFree_toJson, trivial⟩

theorem numberFree_arguments : ∀ as : List Argument, itemsNumberFree (argumentsToJson as)
  | [] => trivial
  | a :: as => ⟨a.numberFree_toJson, numberFree_arguments as⟩

theorem numberFree_segments : ∀ ss : List Segment, itemsNumberFree (segmentsToJson ss)
  | [] => trivial
  | s :: ss => ⟨s.numberFree_toMembers, numberFree_segments ss⟩

end

mutual

/-- A type is decoded from its JSON with any bound beyond the depth of that. -/
theorem typeOfJson_toJson (origin : Origin) : ∀ (t : TypeTree) (bound : Nat),
    t.toJson.depth < bound → typeOfJson bound origin t.toJson = .ok t
  | .base code, bound + 1, _ => by
    have hlists : baseForm.Lists [("code", .string code.toString)] := List.Sublist.refl _
    rw [typeOfJson, TypeTree.toJson, tagged_object _ (by simp) (by simp) rfl]
    simp only [Json.ok_bind, if_true]
    rw [Form.decode_object _ hlists]
    simp
  | .typeVariable name, bound + 1, _ => by
    have hlists : variableForm.Lists [("name", .string name)] := List.Sublist.refl _
    rw [typeOfJson, TypeTree.toJson, tagged_object _ (by simp) (by simp) rfl]
    simp only [Json.ok_bind, String.reduceEq, if_false, if_true]
    rw [Form.decode_object _ hlists]
    simp
  | .array element, bound + 1, h => by
    have hdepth : element.toJson.depth < bound := by
      simp only [TypeTree.toJson, Value.depth, membersDepth] at h
      omega
    have helement := typeOfJson_toJson .setAside element bound hdepth
    have hlegible : membersLegible [("element", element.toJson)] :=
      (TypeTree.array element).numberFree_toJson.legible
    have hlists : arrayForm.Lists [("element", element.toJson)] := List.Sublist.refl _
    rw [typeOfJson, TypeTree.toJson, tagged_object _ (by simp) (by simp) hlegible]
    simp only [Json.ok_bind, String.reduceEq, if_false, if_true]
    rw [Form.decode_object _ hlists]
    simp [helement]
  | .classType (.mk name arguments) inners, bound + 1, h => by
    have hdepth : itemsDepth (argumentsToJson arguments) < bound ∧
        itemsDepth (segmentsToJson inners) < bound := by
      have harguments := itemsDepth_le_listMember "typeArguments" (argumentsToJson arguments)
      have hinners := itemsDepth_le_listMember "innerClasses" (segmentsToJson inners)
      simp only [TypeTree.toJson, Segment.toMembers, Value.depth, membersDepth,
        membersDepth_append, List.cons_append] at h
      omega
    have harguments := list_arguments .setAside arguments bound hdepth.1
    have hinners := list_segments .setAside inners bound hdepth.2
    have hlists := classTypeForm_lists (.mk name arguments) inners
    have hlegible : membersLegible ((Segment.mk name arguments).toMembers ++
        listMember "innerClasses" (segmentsToJson inners)) :=
      (TypeTree.classType (.mk name arguments) inners).numberFree_toJson.legible
    rw [typeOfJson, TypeTree.toJson, List.cons_append,
      tagged_object _ (by simp) (hlists.ne_tag (by simp [classTypeForm])) hlegible]
    simp only [Json.ok_bind, String.reduceEq, if_false]
    rw [Form.decode_object _ hlists]
    rcases arguments with _ | ⟨a, as⟩ <;> rcases inners with _ | ⟨s, ss⟩ <;>
      simp [Segment.toMembers, foldlM_listMember, argumentsToJson_eq_nil_iff,
        segmentsToJson_eq_nil_iff, harguments, hinners]

theorem segmentOfJson_toMembers (origin : Origin) : ∀ (s : Segment) (bound : Nat),
    (Value.object s.toMembers).depth < bound → segmentOfJson bound origin (.object s.toMembers) = .ok s
  | .mk name arguments, bound + 1, h => by
    have hdepth : itemsDepth (argumentsToJson arguments) < bound := by
      have harguments := itemsDepth_le_listMember "typeArguments" (argumentsToJson arguments)
      simp only [Segment.toMembers, Value.depth, membersDepth] at h
      omega
    have harguments := list_arguments .setAside arguments bound hdepth
    rw [segmentOfJson, Form.decode_object _ (segmentForm_lists _)]
    rcases arguments with _ | ⟨a, as⟩ <;>
      simp [Segment.toMembers, foldlM_listMember, argumentsToJson_eq_nil_iff, harguments]

theorem argumentOfJson_toJson (origin : Origin) : ∀ (a : Argument) (bound : Nat),
    a.toJson.depth < bound → argumentOfJson bound origin a.toJson = .ok a
  | .unbounded, bound + 1, _ => by
    rw [argumentOfJson, Argument.toJson, tagged_object _ (by simp) (by simp) rfl]
    simp [Json.nothing]
  | .bounded variance bound tagged, n + 1, h => by
    have hdepth : bound.toJson.depth < n := by
      simp only [Argument.toJson, Value.depth, membersDepth, List.cons_append] at h
      omega
    have hbound := typeOfJson_toJson .setAside bound n hdepth
    have hvariance := Variance.ofJson_name .setAside variance
    have hlists : boundedForm.Lists ([("variance", .string variance.name),
        ("bound", bound.toJson)] ++ if tagged then [("tagged", .bool true)] else []) := by
      cases tagged <;> simp [Form.Lists, boundedForm]
    have hlegible : membersLegible ([("variance", .string variance.name),
        ("bound", bound.toJson)] ++ if tagged then [("tagged", .bool true)] else []) :=
      (Argument.bounded variance bound tagged).numberFree_toJson.legible
    rw [argumentOfJson, Argument.toJson, List.cons_append,
      tagged_object _ (by simp) (hlists.ne_tag (by simp [boundedForm])) hlegible]
    simp only [Json.ok_bind, String.reduceEq, if_false]
    rw [Form.decode_object _ hlists]
    cases tagged <;> simp [hbound, hvariance]

theorem list_arguments (origin : Origin) : ∀ (as : List Argument) (bound : Nat),
    itemsDepth (argumentsToJson as) < bound →
      Json.list (argumentOfJson bound origin) (.array (argumentsToJson as)) = .ok as
  | [], bound, _ => rfl
  | a :: as, bound, h => by
    simp only [argumentsToJson, itemsDepth] at h
    have ha := argumentOfJson_toJson origin a bound (by omega)
    have has := list_arguments origin as bound (by omega)
    rw [Json.list] at has
    rw [Json.list, argumentsToJson, List.mapM_cons, ha, has]
    rfl

theorem list_segments (origin : Origin) : ∀ (ss : List Segment) (bound : Nat),
    itemsDepth (segmentsToJson ss) < bound →
      Json.list (segmentOfJson bound origin) (.array (segmentsToJson ss)) = .ok ss
  | [], bound, _ => rfl
  | s :: ss, bound, h => by
    simp only [segmentsToJson, itemsDepth] at h
    have hs := segmentOfJson_toMembers origin s bound (by omega)
    have hss := list_segments origin ss bound (by omega)
    rw [Json.list] at hss
    rw [Json.list, segmentsToJson, List.mapM_cons, hs, hss]
    rfl

end

/-- A type is decoded from its JSON, in place or set aside. -/
theorem TypeTree.ofJson_toJson (origin : Origin) (t : TypeTree) :
    TypeTree.ofJson origin t.toJson = .ok t :=
  typeOfJson_toJson origin t _ (Nat.lt_succ_self _)

theorem list_types (origin : Origin) (ts : List TypeTree) :
    Json.list (TypeTree.ofJson origin) (.array (ts.map TypeTree.toJson)) = .ok ts :=
  list_map fun t _ => t.ofJson_toJson origin

/-- The JSON of a type is never null. -/
theorem optional_type (origin : Origin) (t : TypeTree) :
    Json.optional (TypeTree.ofJson origin) t.toJson = .ok (some t) := by
  have hsome : Json.optional (TypeTree.ofJson origin) t.toJson =
      (TypeTree.ofJson origin t.toJson).map some := by
    cases t <;> rfl
  rw [hsome, t.ofJson_toJson]
  rfl

/-! ## Declarations and documents -/

theorem formalForm_lists (name : String) (classBound : Option TypeTree)
    (interfaceBounds : List TypeTree) : formalForm.Lists (("name", .string name) ::
      (classBound.toList.map fun bound => ("classBound", bound.toJson)) ++
        listMember "interfaceBounds" (interfaceBounds.map TypeTree.toJson)) := by
  have hbound : ((("name", .string name) :: (classBound.toList.map fun bound =>
      ("classBound", bound.toJson))).map (·.1)).Sublist ["name", "classBound"] := by
    cases classBound <;> simp
  rw [Form.Lists, List.map_append]
  exact hbound.append (names_listMember _ _)

theorem classForm_lists (formals interfaces : List Value) (superclass : Value) :
    classForm.Lists (listMember "typeParameters" formals ++
      ("superclass", superclass) :: listMember "interfaces" interfaces) := by
  rw [Form.Lists, List.map_append]
  exact (names_listMember _ _).append ((names_listMember _ _).cons_cons "superclass")

theorem methodForm_lists (formals exceptions : List Value) (parameters result : Value) :
    methodForm.Lists (listMember "typeParameters" formals ++
      ("parameters", parameters) :: ("returnType", result) ::
        listMember "exceptions" exceptions) := by
  rw [Form.Lists, List.map_append]
  exact (names_listMember _ _).append
    (((names_listMember _ _).cons_cons "returnType").cons_cons "parameters")

/-- A class bound and interface bounds that were left out are absent again. -/
theorem Formal.ofJson_toJson (origin : Origin) (f : Formal) :
    Formal.ofJson origin f.toJson = .ok f := by
  obtain ⟨name, classBound, interfaceBounds⟩ := f
  have hbounds := list_types origin interfaceBounds
  rw [Formal.ofJson, Formal.toJson, Form.decode_object _ (formalForm_lists _ _ _)]
  cases classBound <;> cases interfaceBounds <;>
    simp_all [foldlM_listMember, optional_type]

theorem list_formals (origin : Origin) (fs : List Formal) :
    Json.list (Formal.ofJson origin) (.array (fs.map Formal.toJson)) = .ok fs :=
  list_map fun f _ => f.ofJson_toJson origin

theorem ClassTree.ofJson_toJson (origin : Origin) (t : ClassTree) :
    ClassTree.ofJson origin t.toJson = .ok t := by
  obtain ⟨formals, superclass, interfaces⟩ := t
  have hformals := list_formals origin formals
  have hinterfaces := list_types origin interfaces
  rw [ClassTree.ofJson, ClassTree.toJson, Form.decode_object _ (classForm_lists _ _ _)]
  cases formals <;> cases interfaces <;>
    simp_all [foldlM_listMember, superclass.ofJson_toJson]

theorem MethodTree.ofJson_toJson (origin : Origin) (t : MethodTree) :
    MethodTree.ofJson origin t.toJson = .ok t := by
  obtain ⟨formals, parameters, result, exceptions⟩ := t
  have hformals := list_formals origin formals
  have hparameters := list_types origin parameters
  have hexceptions := list_types origin exceptions
  rw [MethodTree.ofJson, MethodTree.toJson, Form.decode_object _ (methodForm_lists _ _ _ _)]
  cases formals <;> cases exceptions <;>
    simp_all [foldlM_listMember, result.ofJson_toJson]

/-- The shape that is written in front tells what the tree is. -/
theorem Document.ofJson_toJson (d : Document) : Document.ofJson d.toJson = .ok d := by
  have hkind : d.kind.name ∈ Kind.all.map Kind.name := by cases d <;> simp [Document.kind, Kind.all]
  rw [Document.ofJson, Document.toJson, adjacent_object _ _ (by decide) hkind]
  cases d with
  | ofClass tree => simp [Document.kind, Kind.name, Document.treeToJson, tree.ofJson_toJson]; rfl
  | ofMethod tree => simp [Document.kind, Kind.name, Document.treeToJson, tree.ofJson_toJson]; rfl
  | ofType tree => simp [Document.kind, Kind.name, Document.treeToJson, tree.ofJson_toJson]; rfl

theorem Formal.numberFree_toJson (f : Formal) : f.toJson.NumberFree := by
  obtain ⟨name, classBound, interfaceBounds⟩ := f
  have hbounds := membersNumberFree_listMember
    (itemsNumberFree_map TypeTree.numberFree_toJson interfaceBounds) "interfaceBounds"
  cases classBound with
  | none => exact ⟨trivial, hbounds⟩
  | some bound => exact ⟨trivial, bound.numberFree_toJson, hbounds⟩

theorem ClassTree.numberFree_toJson (t : ClassTree) : t.toJson.NumberFree :=
  membersNumberFree_append
    (membersNumberFree_listMember (itemsNumberFree_map Formal.numberFree_toJson t.formals) _)
    ⟨t.superclass.numberFree_toJson,
      membersNumberFree_listMember (itemsNumberFree_map TypeTree.numberFree_toJson t.interfaces) _⟩

theorem MethodTree.numberFree_toJson (t : MethodTree) : t.toJson.NumberFree :=
  membersNumberFree_append
    (membersNumberFree_listMember (itemsNumberFree_map Formal.numberFree_toJson t.formals) _)
    ⟨itemsNumberFree_map TypeTree.numberFree_toJson t.parameters, t.result.numberFree_toJson,
      membersNumberFree_listMember (itemsNumberFree_map TypeTree.numberFree_toJson t.exceptions) _⟩

theorem Document.numberFree_toJson (d : Document) : d.toJson.NumberFree := by
  refine ⟨trivial, ?_, trivial⟩
  cases d with
  | ofClass tree => exact tree.numberFree_toJson
  | ofMethod tree => exact tree.numberFree_toJson
  | ofType tree => exact tree.numberFree_toJson

/-! ## Trees that are nested too deep -/

/-- A type is set aside when it is decoded, so that all of it must have been taken in. -/
theorem TypeTree.strict_ofJson : Strict (TypeTree.ofJson .inPlace) := by
  intro v hv
  refine ⟨.malformed, ?_⟩
  rw [TypeTree.ofJson, typeOfJson, Json.tagged, Json.setAside, if_neg hv]
  rfl

/-- A formal type parameter is a record of names and types, each of which must be taken in. -/
theorem Formal.refusesCut (f : Formal) : RefusesCut (Formal.ofJson .inPlace) f.toJson :=
  formalForm.refusesCut (formalForm_lists _ _ _) fun m _ s =>
    Strict.refusesCut (.ite (Json.strict_string.field _ s.name _)
      (.ite (TypeTree.strict_ofJson.optional.field _ s.classBound _)
        (TypeTree.strict_ofJson.list.field _ s.interfaceBounds _))) m.2

/-- The formal type parameters of a declaration, where they stand among its members. -/
theorem eq_formals_of_mem {formals : List Value} {others : List (String × Value)}
    {m : String × Value} (hm : m ∈ listMember "typeParameters" formals ++ others)
    (hname : m.1 = "typeParameters") (hothers : ∀ m ∈ others, m.1 ≠ "typeParameters") :
    m.2 = .array formals := by
  rcases List.mem_append.1 hm with hm | hm
  · cases formals with
    | nil => cases hm
    | cons v vs => rw [List.mem_singleton.1 hm]
  · exact absurd hname (hothers m hm)

theorem ClassTree.refusesCut (t : ClassTree) : RefusesCut (ClassTree.ofJson .inPlace) t.toJson := by
  refine classForm.refusesCut (classForm_lists _ _ _) fun m hm s => ?_
  by_cases hname : m.1 = "typeParameters"
  · have hformals : m.2 = .array (t.formals.map Formal.toJson) :=
      eq_formals_of_mem hm hname (by simp [listMember])
    simp only [hname, if_true, hformals]
    exact (RefusesCut.list fun f _ => f.refusesCut).field _ s.formals _
  · simp only [hname, if_false]
    exact Strict.refusesCut (.ite (TypeTree.strict_ofJson.field _ s.superclass _)
      (TypeTree.strict_ofJson.list.field _ s.interfaces _)) m.2

theorem MethodTree.refusesCut (t : MethodTree) :
    RefusesCut (MethodTree.ofJson .inPlace) t.toJson := by
  refine methodForm.refusesCut (methodForm_lists _ _ _ _) fun m hm s => ?_
  by_cases hname : m.1 = "typeParameters"
  · have hformals : m.2 = .array (t.formals.map Formal.toJson) :=
      eq_formals_of_mem hm hname (by simp [listMember])
    simp only [hname, if_true, hformals]
    exact (RefusesCut.list fun f _ => f.refusesCut).field _ s.formals _
  · simp only [hname, if_false]
    exact Strict.refusesCut (.ite (TypeTree.strict_ofJson.list.field _ s.parameters _)
      (.ite (TypeTree.strict_ofJson.field _ s.result _)
        (TypeTree.strict_ofJson.list.field _ s.exceptions _))) m.2

/-- The tree of a document follows its shape, so that it is decoded in place. -/
theorem Document.refusesCut (d : Document) : RefusesCut Document.ofJson d.toJson := by
  refine Json.refusesCut_object ⟨_, rfl⟩ fun room hv => ?_
  have hkind : d.kind.name ∈ Kind.all.map Kind.name := by cases d <;> simp [Document.kind, Kind.all]
  simp only [Json.membersPruned, Value.pruned, membersLegible, Value.legible, Bool.true_and,
    Bool.and_true] at hv ⊢
  rw [Json.Refuses, Document.ofJson, adjacent_object _ _ (by decide) hkind]
  cases d with
  | ofClass tree => exact (tree.refusesCut _ hv).map Document.ofClass
  | ofMethod tree => exact (tree.refusesCut _ hv).map Document.ofMethod
  | ofType tree => exact (TypeTree.strict_ofJson _ hv).map Document.ofType

/-! ## From a text to the tree -/

/-- Both texts of the value decode to `a`, unless the value is nested deeper than 127 levels. -/
def Recovers (decoder : Value → Decoded α) (v : Value) (a : α) : Prop :=
  let outcome := if v.depth ≤ 127 then .ok a else .error .malformed
  Json.decode decoder v.compact = outcome ∧ Json.decode decoder (v.pretty 0) = outcome

/-- It is enough to decode the value, and to refuse what is left where it is cut short. -/
theorem recovers {decoder : Value → Decoded α} {v : Value} {a : α} (h : decoder v = .ok a)
    (hv : v.NumberFree) (hcut : RefusesCut decoder v) : Recovers decoder v a := by
  rw [Recovers, ← h]
  exact ⟨Json.decode_compact hv hcut, Json.decode_pretty hv hcut⟩

/-- JSON undoes JSON for trees of every kind, whether or not they are well formed. -/
theorem json_recovers :
    (∀ t : TypeTree, Recovers (TypeTree.ofJson .inPlace) t.toJson t) ∧
      (∀ t : ClassTree, Recovers (ClassTree.ofJson .inPlace) t.toJson t) ∧
      (∀ t : MethodTree, Recovers (MethodTree.ofJson .inPlace) t.toJson t) ∧
      ∀ d : Document, Recovers Document.ofJson d.toJson d :=
  ⟨fun t => recovers (t.ofJson_toJson .inPlace) t.numberFree_toJson
      (TypeTree.strict_ofJson.refusesCut _),
    fun t => recovers (t.ofJson_toJson .inPlace) t.numberFree_toJson t.refusesCut,
    fun t => recovers (t.ofJson_toJson .inPlace) t.numberFree_toJson t.refusesCut,
    fun d => recovers d.ofJson_toJson d.numberFree_toJson d.refusesCut⟩

end ClassUnit.Signature
