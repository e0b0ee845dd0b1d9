import ClassUnit.Proofs.Signature.Building
import ClassUnit.Proofs.Signature.Recognition
import ClassUnit.Signature.Document

/-! # Round trips of signatures

Texts and well-formed trees determine each other: what a text parses to is the well-formed tree
with that text (`Document.parse_eq_ok_iff`). -/

namespace ClassUnit.Signature

variable {text : String} {kind kind' : Kind}

/-- A reader tells bare types from declarations only. -/
theorem Reading.ofKind_congr (h : kind = .ofType ↔ kind' = .ofType) :
    ofKind kind text = ofKind kind' text := by
  cases kind <;> cases kind' <;> simp_all [ofKind]

/-- A text that is read without a fault is the text of a well-formed signature. -/
theorem Reading.exists_document (h : (ofKind kind text).fault = none) :
    ∃ d : Document, d.WellFormed ∧ (d.kind = .ofType ↔ kind = .ofType) ∧ d.text = text := by
  rcases ofKind_or_breaksOff kind text with hd | ⟨d, -, hbreak⟩
  · exact hd
  · exact absurd h hbreak.fault

/-- The text of a well-formed signature has the events of the signature, read as any kind that is
read like it. -/
theorem Document.WellFormed.ofKind_text {d : Document} (h : d.WellFormed)
    (hkind : d.kind = .ofType ↔ kind = .ofType) :
    Reading.ofKind kind d.text = ⟨d.deliveries, none⟩ := by
  rw [← Reading.ofKind_congr hkind, Reading.ofKind_text h]

namespace Document

/-- Whether a well-formed signature is parsed from its text depends only on the kind. -/
theorem WellFormed.parse_text {d : Document} (h : d.WellFormed)
    (hkind : d.kind = .ofType ↔ kind = .ofType) :
    parse d.text kind = if d.kind = kind then .ok d
      else .error (.invalidSignature ⟨0, .otherKind kind d.kind⟩) := by
  have hevents : ofEvents (Reading.events ⟨d.deliveries, none⟩) = .ok d :=
    ofEvents_events h.tagsExact
  rw [parse, h.ofKind_text hkind]
  simp only [hevents]

theorem parse_eq_ok_iff :
    parse text kind = .ok d ↔ d.WellFormed ∧ d.kind = kind ∧ d.text = text := by
  constructor
  · intro h
    cases hfault : (Reading.ofKind kind text).fault with
    | some fault => simp [parse, hfault] at h
    | none =>
      obtain ⟨e, he, hkind, rfl⟩ := Reading.exists_document hfault
      rw [he.parse_text hkind] at h
      split at h
      · obtain rfl := Except.ok.inj h
        exact ⟨he, ‹_›, rfl⟩
      · cases h
  · rintro ⟨h, rfl, rfl⟩
    rw [h.parse_text Iff.rfl, if_pos rfl]

end Document

theorem MethodTree.parse_eq_ok_iff {t : MethodTree} :
    MethodTree.parse text = .ok t ↔ t.WellFormed ∧ (Document.ofMethod t).text = text := by
  have hiff (d : Document) : Document.parse text .ofMethod = .ok d ↔ _ := Document.parse_eq_ok_iff
  have hmethod := hiff (.ofMethod t)
  simp only [Document.kind, true_and] at hmethod
  change MethodTree.parse text = .ok t ↔ (Document.ofMethod t).WellFormed ∧ _
  rw [← hmethod, MethodTree.parse]
  cases h : Document.parse text .ofMethod with
  | error e => simp
  | ok d =>
    have hkind := ((hiff d).1 h).2.1
    cases d with
    | ofMethod tree => simp
    | ofClass | ofType => simp [Document.kind] at hkind

namespace Document

/-! ## From a text to the text -/

/-- What is parsed, or written straight from the reader, is the text again; and a reader never
breaks the order in which a builder expects its events. -/
theorem text_parse (text : String) (kind : Kind) :
    (∀ d, parse text kind = .ok d → d.kind = kind ∧ d.text = text) ∧
      ((Reading.ofKind kind text).fault = none →
        Signature.text (Reading.ofKind kind text).events = text ∧
          ∃ d, ofEvents (Reading.ofKind kind text).events = .ok d) ∧
      ∀ breach, parse text kind ≠ .error (.visitOrder breach) := by
  refine ⟨fun d h => (parse_eq_ok_iff.1 h).2, fun hfault => ?_, fun breach h => ?_⟩
  · obtain ⟨d, hd, hkind, rfl⟩ := Reading.exists_document hfault
    rw [hd.ofKind_text hkind]
    exact ⟨rfl, d, ofEvents_events hd.tagsExact⟩
  · cases hfault : (Reading.ofKind kind text).fault with
    | some fault => simp [parse, hfault] at h
    | none =>
      obtain ⟨d, hd, hkind, rfl⟩ := Reading.exists_document hfault
      rw [hd.parse_text hkind] at h
      split at h <;> cases h

theorem text_parse_of_method :
    (∃ d, parse "<E:LA;>(LB<*=I>.C;)V^TX;" .ofMethod = .ok d ∧ d.kind = .ofMethod ∧
        d.text = "<E:LA;>(LB<*=I>.C;)V^TX;") ∧
      Signature.text (Reading.ofKind .ofMethod "<E:LA;>(LB<*=I>.C;)V^TX;").events =
        "<E:LA;>(LB<*=I>.C;)V^TX;" := by
  have hparse : parse "<E:LA;>(LB<*=I>.C;)V^TX;" .ofMethod = .ok (.ofMethod
      ⟨[⟨"E", some (.classType (.mk "A" []) []), []⟩],
        [.classType (.mk "B" [.unbounded, .bounded .exact (.base 'I') true]) [.mk "C" []]],
        .base 'V', [.typeVariable "X"]⟩) := rfl
  obtain ⟨hd, hfault, -⟩ := text_parse "<E:LA;>(LB<*=I>.C;)V^TX;" .ofMethod
  exact ⟨⟨_, hparse, hd _ hparse⟩, (hfault rfl).1⟩

/-! ## From a tree to the tree -/

/-- The well-formed trees are those that can be read back from their text. -/
theorem parse_text_iff (d : Document) : parse d.text d.kind = .ok d ↔ d.WellFormed := by
  simp [parse_eq_ok_iff]

/-- The name behind a formal type parameter without bounds is read as its class bound. -/
example : (Reading.ofKind .ofClass
    (ofClass ⟨[⟨"E", none, []⟩, ⟨"T", none, []⟩], .base 'I', []⟩).text).fault =
      some ⟨4, .missing ';'⟩ := rfl

end Document

end ClassUnit.Signature
