import ClassUnit.Proofs.Signature.RoundTrip
import ClassUnit.Signature.Listener

/-! # Two ways to drive a listener

A listener can be driven from a text or from a tree. What a reader delivers for a text, and to
which level, is what the tree of the text delivers (`Reading.drives_as_document`); where a fault
ends the reading, the deliveries until then begin those of a tree all the same. A listener that
leaves tagged arguments to the default cannot tell them from exact ones
(`Listener.DefaultsTagged.attend_untagged`). -/

namespace ClassUnit.Signature

/-- A delivery as a listener takes it that does not keep how an exact argument was spelled. -/
def Delivery.untagged (d : Delivery) : Delivery := { d with event := d.event.untagged }

namespace Listener

variable {σ : Type} {l : Listener σ}

/-- Tagged arguments are left to the default. -/
def DefaultsTagged (l : Listener σ) : Prop :=
  ∀ level s, l.tagged level s = l.argument level .exact s

theorem record_defaultsTagged : record.DefaultsTagged := fun _ _ => rfl

theorem attend_cons (l : Listener σ) (s : σ) (d : Delivery) (ds : List Delivery) :
    l.attend s (d :: ds) = l.attend (l.hear s d) ds := rfl

theorem DefaultsTagged.hear_untagged (h : l.DefaultsTagged) (s : σ) (d : Delivery) :
    l.hear s d.untagged = l.hear s d := by
  obtain ⟨level, event⟩ := d
  cases event with
  | tagged => exact (h level s).symm
  | _ => rfl

theorem DefaultsTagged.attend_untagged (h : l.DefaultsTagged) (s : σ) (ds : List Delivery) :
    l.attend s (ds.map Delivery.untagged) = l.attend s ds := by
  induction ds generalizing s with
  | nil => rfl
  | cons d ds ih => rw [List.map_cons, attend_cons, attend_cons, h.hear_untagged, ih]

theorem record_hear (heard : List Delivery) (d : Delivery) :
    record.hear heard d = heard ++ [d.untagged] := by
  obtain ⟨level, event⟩ := d
  cases event <;> rfl

/-- What is heard by a listener that leaves nothing but tagged arguments to the default. -/
theorem record_attend (heard : List Delivery) (ds : List Delivery) :
    record.attend heard ds = heard ++ ds.map Delivery.untagged := by
  induction ds generalizing heard with
  | nil => rw [List.map_nil, List.append_nil]; rfl
  | cons d ds ih =>
    rw [attend_cons, record_hear, ih, List.map_cons, List.append_assoc, List.singleton_append]

end Listener

namespace Reading

/-- A reader drives every listener as the parsed tree does, call by call and level by level; and
a text that is refused has until then been read as the beginning of some signature. -/
theorem drives_as_document (text : String) (kind : Kind) :
    ((ofKind kind text).fault = none →
      ∃ d : Document, Document.parse text d.kind = .ok d ∧ (d.kind = .ofType ↔ kind = .ofType) ∧
        (ofKind kind text).deliveries = d.deliveries ∧
        Listener.record.attend [] (ofKind kind text).deliveries =
          d.deliveries.map Delivery.untagged ∧
        ∀ (σ : Type) (l : Listener σ), l.DefaultsTagged → ∀ s,
          l.attend s (ofKind kind text).deliveries =
            l.attend s (d.deliveries.map Delivery.untagged)) ∧
      ((ofKind kind text).fault ≠ none →
        ∃ d : Document, (d.kind = .ofType ↔ kind = .ofType) ∧
          (ofKind kind text).deliveries <+: d.deliveries) := by
  constructor
  · intro hfault
    obtain ⟨d, hd, hkind, rfl⟩ := exists_document hfault
    have hdeliveries : (ofKind kind d.text).deliveries = d.deliveries := by
      rw [hd.ofKind_text hkind]
    refine ⟨d, Document.parse_eq_ok_iff.2 ⟨hd, rfl, rfl⟩, hkind, hdeliveries, ?_, ?_⟩
    · rw [Listener.record_attend, List.nil_append, hdeliveries]
    · intro σ l hl s
      rw [hl.attend_untagged, hdeliveries]
  · intro hfault
    rcases ofKind_or_breaksOff kind text with ⟨d, hd, hkind, rfl⟩ | ⟨d, hkind, hbreak⟩
    · exact absurd (by rw [hd.ofKind_text hkind]) hfault
    · exact ⟨d, hkind, hbreak.events_prefix⟩

theorem drives_as_document_of_types :
    ((ofKind .ofType "[LA<=TX;*>;").fault = none ∧
      ∃ d, Document.parse "[LA<=TX;*>;" .ofType = .ok d ∧
        (ofKind .ofType "[LA<=TX;*>;").deliveries = d.deliveries ∧
        d.deliveries.map Delivery.untagged =
          [⟨0, .array⟩, ⟨1, .classType "A"⟩, ⟨1, .argument .exact⟩, ⟨2, .typeVariable "X"⟩,
            ⟨1, .unbounded⟩, ⟨1, .close⟩] ∧
        Listener.record.attend [] d.deliveries =
          Listener.record.attend [] (d.deliveries.map Delivery.untagged)) ∧
      (ofKind .ofType "LA<+[").fault ≠ none ∧
        ∃ d : Document, d.kind = .ofType ∧
          [⟨0, .classType "A"⟩, ⟨0, .argument .extending⟩, ⟨1, .array⟩] <+: d.deliveries := by
  obtain ⟨d, hparse, hkind, hdeliveries, hrecord, hdefault⟩ :=
    (drives_as_document "[LA<=TX;*>;" .ofType).1 rfl
  have hrecord' := hdefault _ _ Listener.record_defaultsTagged []
  have hrefused : (ofKind .ofType "LA<+[").fault ≠ none := by decide
  obtain ⟨e, hkind', hprefix⟩ := (drives_as_document "LA<+[" .ofType).2 hrefused
  rw [hkind.2 rfl] at hparse
  exact ⟨⟨rfl, d, hparse, hdeliveries, hrecord.symm, hdeliveries ▸ hrecord'⟩, hrefused, e,
    hkind'.2 rfl, hprefix⟩

end Reading

end ClassUnit.Signature
