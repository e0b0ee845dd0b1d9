import Mathlib.Data.List.Induction
import Mathlib.Data.List.Forall2
import ClassUnit.Proofs.Signature.RoundTrip

/-! # Several signatures on one writer

Readers that share a writer put their texts one behind the other, with one exception. A writer
never forgets that it has opened a parameter list, so a method signature that comes after one with
parameters loses the bracket that opens its own (`Document.textAfter`). What one complete signature
leaves behind is `Writer.writeAll_document`; by induction this gives what several of them leave
(`Writer.writeAll_documents`). The main statement is about texts, refused ones among them
(`Reading.text_ofDeclarations`). -/

namespace ClassUnit.Signature

namespace Document

/-- What a writer puts for a signature that comes after the signatures `before`. -/
def textAfter (before : List Document) (d : Document) : String :=
  if before.any takesParameters then String.ofList d.unopened else d.text

/-- What a writer puts for each of several signatures. -/
def textsInRow (ds : List Document) : List String :=
  ds.mapIdx fun i d => d.textAfter (ds.take i)

theorem textsInRow_append_singleton (ds : List Document) (d : Document) :
    textsInRow (ds ++ [d]) = textsInRow ds ++ [d.textAfter ds] := by
  have hbefore : (ds.mapIdx fun i e => e.textAfter ((ds ++ [d]).take i)) = textsInRow ds := by
    refine List.mapIdx_eq_mapIdx_iff.2 fun i hi => ?_
    rw [List.take_append_of_le_length hi.le]
  rw [textsInRow, List.mapIdx_concat, hbefore, List.take_left' rfl]

/-- `d` is the class or method signature that a text spells. -/
structure Declares (text : String) (d : Document) : Prop where
  kind_ne : d.kind ≠ .ofType
  parse_eq : parse text d.kind = .ok d
  text_eq : d.text = text

end Document

namespace Writer

/-- A fresh writer that is given several signatures is left with their texts and with the flag of
the parameter list. No bracket and no segment stays open. -/
theorem writeAll_documents (ds : List Document) :
    ({} : Writer).writeAll (ds.flatMap Document.deliveries) =
      { text := String.join (Document.textsInRow ds)
        hasParameters := ds.any Document.takesParameters } := by
  induction ds using List.reverseRecOn with
  | nil => rfl
  | append_singleton ds d ih =>
    rw [List.flatMap_append, writeAll_append, ih, List.flatMap_singleton,
      writeAll_document _ rfl, Document.textsInRow_append_singleton]
    cases h : ds.any Document.takesParameters <;>
      simp [h, putChars, put, Document.textAfter, Document.text_eq, String.join_append]

/-! ## Behind an earlier text

What a writer puts depends on its flags and its segments, and not on the text before. -/

/-- The writer as it would be had it begun behind a text. -/
def behind (s : String) (w : Writer) : Writer := { w with text := s ++ w.text }

theorem behind_put (s : String) (w : Writer) (t : String) :
    (w.behind s).put t = (w.put t).behind s := by
  simp [behind, put, String.append_assoc]

theorem behind_endFormals (s : String) (w : Writer) :
    (w.behind s).endFormals = w.endFormals.behind s := by
  cases h : w.inFormals <;> simp [endFormals, behind, put, h, String.append_assoc]

theorem behind_endSegment (s : String) (w : Writer) :
    (w.behind s).endSegment = w.endSegment.behind s := by
  rcases h : w.segments with _ | ⟨_ | _, rest⟩ <;>
    simp [endSegment, behind, put, h, String.append_assoc]

theorem behind_beginArguments (s : String) (w : Writer) :
    (w.behind s).beginArguments = w.beginArguments.behind s := by
  rcases h : w.segments with _ | ⟨_ | _, rest⟩ <;>
    simp [beginArguments, behind, put, h, String.append_assoc]

theorem behind_beginSegment (s : String) (w : Writer) :
    (w.behind s).beginSegment = w.beginSegment.behind s := rfl

/-- What was written before has no part in what an event writes. -/
theorem behind_step (s : String) (w : Writer) (e : Event) :
    (w.behind s).step e = (w.step e).behind s := by
  cases e with
  | formal name =>
    cases h : w.inFormals <;> simp [step, behind, put, h, String.append_assoc]
  | parameter | result =>
    simp only [step, behind_endFormals]
    cases h : w.endFormals.hasParameters <;> simp [behind, put, h, String.append_assoc]
  | argument variance =>
    cases variance <;> simp [step, behind_put, behind_beginArguments]
  | _ =>
    simp [step, behind_put, behind_endFormals, behind_endSegment, behind_beginArguments,
      behind_beginSegment]

theorem behind_writeAll (s : String) (w : Writer) (ds : List Delivery) :
    (w.behind s).writeAll ds = (w.writeAll ds).behind s := by
  induction ds generalizing w with
  | nil => rfl
  | cons d ds ih => rw [writeAll_cons, behind_step, ih, writeAll_cons]

end Writer

namespace Reading

variable {text : String} {texts : List String} {fault : Fault}

theorem ofDeclaration_of_declares (h : Document.Declares text d) :
    ofDeclaration text = ⟨d.deliveries, none⟩ := by
  obtain ⟨hd, -, rfl⟩ := Document.parse_eq_ok_iff.1 h.parse_eq
  have hkind : d.kind = .ofType ↔ Kind.ofClass = .ofType := by simp [h.kind_ne]
  exact hd.ofKind_text hkind

/-- A text without a fault declares a class or a method. -/
theorem exists_declares (h : (ofDeclaration text).fault = none) :
    ∃ d, Document.Declares text d := by
  have hclass : (ofKind .ofClass text).fault = none := h
  obtain ⟨d, hd, hkind, htext⟩ := exists_document hclass
  exact ⟨d, by simp [hkind], Document.parse_eq_ok_iff.2 ⟨hd, rfl, htext⟩, htext⟩

theorem exists_forall₂_declares (h : ∀ text ∈ texts, (ofDeclaration text).fault = none) :
    ∃ ds, List.Forall₂ Document.Declares texts ds := by
  induction texts with
  | nil => exact ⟨[], .nil⟩
  | cons text texts ih =>
    obtain ⟨d, hd⟩ := exists_declares (h text List.mem_cons_self)
    obtain ⟨ds, hds⟩ := ih fun t ht => h t (List.mem_cons_of_mem _ ht)
    exact ⟨d :: ds, .cons hd hds⟩

/-! ## One reading after another -/

theorem text_events (r : Reading) :
    Signature.text r.events = (({} : Writer).writeAll r.deliveries).text := rfl

theorem ofDeclarations_cons (text : String) (texts : List String) :
    ofDeclarations (text :: texts) = (ofDeclaration text).andThen (ofDeclarations texts) := rfl

theorem andThen_of_none {r : Reading} (h : r.fault = none) (s : Reading) :
    r.andThen s = s.after r.deliveries := by
  simp [andThen, after, h]

theorem andThen_of_some {r : Reading} (h : r.fault = some fault) (s : Reading) :
    r.andThen s = r := by
  simp [andThen, h]

/-- Texts that declare something give their deliveries one after the other. -/
theorem ofDeclarations_of_declares (h : List.Forall₂ Document.Declares texts ds) :
    ofDeclarations texts = ⟨ds.flatMap Document.deliveries, none⟩ := by
  induction h with
  | nil => rfl
  | cons hd _ ih =>
    rw [ofDeclarations_cons, ofDeclaration_of_declares hd, andThen_of_none rfl, ih]
    rfl

/-- The first text that is refused ends the reading. -/
theorem ofDeclarations_of_fault (h : ∀ text ∈ texts, (ofDeclaration text).fault = none)
    (hfault : (ofDeclaration refused).fault = some fault) (later : List String) :
    ofDeclarations (texts ++ refused :: later) =
      (ofDeclaration refused).after (ofDeclarations texts).deliveries := by
  induction texts with
  | nil =>
    rw [List.nil_append, ofDeclarations_cons, andThen_of_some hfault]
    rfl
  | cons text texts ih =>
    have htext := h text List.mem_cons_self
    rw [List.cons_append, ofDeclarations_cons, ofDeclarations_cons, andThen_of_none htext,
      andThen_of_none htext, ih fun t ht => h t (List.mem_cons_of_mem _ ht)]
    simp

/-- Texts that are all accepted come out one behind the other, but for the bracket that a method
signature loses after one with parameters. A refused text behind them gives its fault, and adds
what a writer puts that has only the flag of the parameter list from before; whatever comes later
has no part in it. -/
theorem text_ofDeclarations (h : ∀ text ∈ texts, (ofDeclaration text).fault = none) :
    ∃ ds, List.Forall₂ Document.Declares texts ds ∧
      (ofDeclarations texts).fault = none ∧
      Signature.text (ofDeclarations texts).events = String.join (Document.textsInRow ds) ∧
      ∀ refused later, (ofDeclaration refused).fault ≠ none →
        ofDeclarations (texts ++ refused :: later) =
          ⟨(ofDeclarations texts).deliveries ++ (ofDeclaration refused).deliveries,
            (ofDeclaration refused).fault⟩ ∧
        Signature.text (ofDeclarations (texts ++ refused :: later)).events =
          Signature.text (ofDeclarations texts).events ++
            (({ hasParameters := ds.any Document.takesParameters } : Writer).write
              (ofDeclaration refused).events).text := by
  obtain ⟨ds, hds⟩ := exists_forall₂_declares h
  have hreading := ofDeclarations_of_declares hds
  have hwritten : ({} : Writer).writeAll (ofDeclarations texts).deliveries =
      Writer.behind (String.join (Document.textsInRow ds))
        { hasParameters := ds.any Document.takesParameters } := by
    rw [hreading, Writer.writeAll_documents]
    simp [Writer.behind]
  refine ⟨ds, hds, by rw [hreading], ?_, fun refused later hrefused => ?_⟩
  · rw [text_events, hwritten]
    simp [Writer.behind]
  · obtain ⟨fault, hfault⟩ := Option.ne_none_iff_exists'.1 hrefused
    have hall := ofDeclarations_of_fault h hfault later
    refine ⟨hall, ?_⟩
    rw [text_events, text_events, hall, deliveries_after, Writer.writeAll_append, hwritten,
      Writer.behind_writeAll]
    simp [Writer.behind, Writer.writeAll, events]

theorem text_ofDeclarations_of_three :
    (∀ text ∈ ["(I)V", "LA;", "<T::LB;>()TT;"], (ofDeclaration text).fault = none) ∧
      (ofDeclaration "([").fault = some ⟨2, .unexpectedEnd⟩ ∧
      ∃ ds, List.Forall₂ Document.Declares ["(I)V", "LA;", "<T::LB;>()TT;"] ds ∧
        Signature.text (ofDeclarations ["(I)V", "LA;", "<T::LB;>()TT;"]).events =
          String.join (Document.textsInRow ds) ∧
        String.join (Document.textsInRow ds) = "(I)VLA;<T::LB;>)TT;" ∧
        (ofDeclarations ["(I)V", "LA;", "<T::LB;>()TT;", "([", "()V"]).fault =
          some ⟨2, .unexpectedEnd⟩ := by
  have h : ∀ text ∈ ["(I)V", "LA;", "<T::LB;>()TT;"], (ofDeclaration text).fault = none := by
    simp only [List.forall_mem_cons]
    exact ⟨rfl, rfl, rfl, List.forall_mem_nil _⟩
  have hrefused : (ofDeclaration "([").fault = some ⟨2, .unexpectedEnd⟩ := rfl
  obtain ⟨ds, hds, -, htext, hlater⟩ := text_ofDeclarations h
  obtain ⟨hall, -⟩ := hlater "([" ["()V"] (by simp [hrefused])
  have hrow : String.join (Document.textsInRow ds) = "(I)VLA;<T::LB;>)TT;" := htext.symm.trans rfl
  exact ⟨h, hrefused, ds, hds, htext, hrow, (congrArg Reading.fault hall).trans hrefused⟩

/-- The last of the accepted texts loses its bracket, and the refused one its own. -/
example : Signature.text (ofDeclarations ["(I)V", "LA;", "<T::LB;>()TT;", "([", "()V"]).events =
    "(I)VLA;<T::LB;>)TT;[" := rfl

end Reading

end ClassUnit.Signature
