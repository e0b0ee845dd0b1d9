import ClassUnit.Proofs.Signature.RoundTrip
import ClassUnit.Proxy.Method

/-! # Method descriptors

Which name and which text make a method (`Method.ofNameAndDescriptor_eq_ok_iff`), and how the
descriptor of a method is spelled. -/

namespace ClassUnit.Proxy
open Signature (TypeTree MethodTree Document)

namespace Method

/-- A signature in which nothing is generic. -/
structure Erased (t : MethodTree) : Prop where
  formals : t.formals = []
  exceptions : t.exceptions = []
  parameters : ∀ p ∈ t.parameters, genericPart p = none
  result : genericPart t.result = none

namespace Erased

theorem toList_text {t : MethodTree} (h : Erased t) :
    (Document.ofMethod t).text.toList =
      '(' :: (t.parameters.flatMap TypeTree.spelling ++ ')' :: t.result.spelling) := by
  rw [Document.text_eq, String.toList_ofList]
  simp [Document.spelling, MethodTree.spelling, MethodTree.ending, Signature.formalsSpelling,
    h.formals, h.exceptions]

theorem text_eq {t : MethodTree} (h : Erased t) :
    (Document.ofMethod t).text =
      "(" ++ String.join (t.parameters.map TypeTree.text) ++ ")" ++ t.result.text := by
  rw [← String.toList_inj, h.toList_text]
  simp [String.toList_join, List.flatMap_map, TypeTree.toList_text]

end Erased

theorem genericReason_eq_none_iff : genericReason t = none ↔ Erased t := by
  constructor
  · intro h
    unfold genericReason at h
    split at h
    · cases h
    · rename_i hempty
      simp only [List.findSome?_eq_none_iff, List.mem_append, List.mem_singleton] at h
      obtain ⟨hformals, hexceptions⟩ : t.formals = [] ∧ t.exceptions = [] := by
        simpa using hempty
      exact ⟨hformals, hexceptions, fun p hp => h p (.inl hp), h _ (.inr rfl)⟩
  · intro h
    have hparts : (t.parameters ++ [t.result]).findSome? genericPart = none := by
      rw [List.findSome?_eq_none_iff]
      intro p hp
      rcases List.mem_append.1 hp with hp | hp
      · exact h.parameters p hp
      · rw [List.mem_singleton.1 hp, h.result]
    simp [genericReason, h.formals, h.exceptions, hparts]

/-- A method is made from a valid name and the text of a well-formed signature in which nothing is
generic. -/
theorem ofNameAndDescriptor_eq_ok_iff {name descriptor : String} {m : Method} :
    ofNameAndDescriptor name descriptor = .ok m ↔
      validName name ∧ m.signature.WellFormed ∧ Erased m.signature ∧
        (Document.ofMethod m.signature).text = descriptor ∧ m.name = name ∧
        m.descriptor = descriptor := by
  constructor
  · intro h
    cases hname : validName name with
    | false => simp [ofNameAndDescriptor, hname] at h
    | true =>
      cases hparse : MethodTree.parse descriptor with
      | error e => simp [ofNameAndDescriptor, hname, hparse] at h
      | ok t =>
        cases hreason : genericReason t with
        | some reason => simp [ofNameAndDescriptor, hname, hparse, hreason] at h
        | none =>
          obtain rfl : ⟨name, descriptor, t⟩ = m := by
            simpa [ofNameAndDescriptor, hname, hparse, hreason] using h
          obtain ⟨ht, htext⟩ := MethodTree.parse_eq_ok_iff.1 hparse
          exact ⟨rfl, ht, genericReason_eq_none_iff.1 hreason, htext, rfl, rfl⟩
  · rintro ⟨hname, hm, herased, htext, rfl, rfl⟩
    have hparse := MethodTree.parse_eq_ok_iff.2 ⟨hm, htext⟩
    have hreason := genericReason_eq_none_iff.2 herased
    simp [ofNameAndDescriptor, hname, hparse, hreason]

/-- A method as it is made from its name and its descriptor. -/
def Accepted (m : Method) : Prop := ofNameAndDescriptor m.name m.descriptor = .ok m

namespace Accepted

theorem validName {m : Method} (h : m.Accepted) : Method.validName m.name :=
  (ofNameAndDescriptor_eq_ok_iff.1 h).1

theorem wellFormed {m : Method} (h : m.Accepted) : m.signature.WellFormed :=
  (ofNameAndDescriptor_eq_ok_iff.1 h).2.1

theorem erased {m : Method} (h : m.Accepted) : Erased m.signature :=
  (ofNameAndDescriptor_eq_ok_iff.1 h).2.2.1

/-- The descriptor is the types of the parameters, in parentheses, and the type of the result. -/
theorem toList_descriptor {m : Method} (h : m.Accepted) :
    m.descriptor.toList =
      '(' :: (m.parameters.flatMap TypeTree.spelling ++ ')' :: m.result.spelling) := by
  obtain ⟨-, -, herased, htext, -⟩ := ofNameAndDescriptor_eq_ok_iff.1 h
  rw [← htext, herased.toList_text]
  rfl

end Accepted

end Method

end ClassUnit.Proxy
