import ClassUnit.CommandLine.Commands
import ClassUnit.Proofs.Signature.Inference

/-! # Checking signatures

What `check` prints and how it ends follow from what parses (`check_reports`): its branch for a text
that is printed differently is never taken, since a text that parses is printed as it was. Where no
kind is named the text must moreover look like what it is (`infer_agrees_iff`). -/

namespace ClassUnit.CommandLine
open Signature (Document Kind)

variable {text : String} {kind : Option Kind}

/-- The text is a signature of the named kind or, if none is named, of the inferred one. -/
def Parses (kind : Option Kind) (text : String) : Prop :=
  ∃ d, Document.parse text (kind.getD (.infer text)) = .ok d

instance (kind : Option Kind) (text : String) : Decidable (Parses kind text) :=
  match h : Document.parse text (kind.getD (.infer text)) with
  | .ok d => .isTrue ⟨d, h⟩
  | .error _ => .isFalse fun ⟨_, hd⟩ => nomatch h.symm.trans hd

/-- What `check` prints about one text. -/
def report (kind : Option Kind) (text : String) : String :=
  match Document.parse text (kind.getD (.infer text)) with
  | .ok _ => "ok       " ++ text ++ "\n"
  | .error e => "invalid  " ++ text ++ "\n" ++ "  " ++ e.message ++ "\n"

/-! ## One text -/

theorem verdict_eq_ok (h : Parses kind text) : verdict kind text = .ok := by
  obtain ⟨d, hd⟩ := h
  simp [verdict, hd, (Document.parse_eq_ok_iff.1 hd).2.2]

theorem verdict_eq_invalid (h : ¬Parses kind text) :
    ∃ e, Document.parse text (kind.getD (.infer text)) = .error e ∧
      verdict kind text = .invalid e := by
  cases hparse : Document.parse text (kind.getD (.infer text)) with
  | ok d => exact absurd ⟨d, hparse⟩ h
  | error e => exact ⟨e, rfl, by simp [verdict, hparse]⟩

theorem verdict_isOk : (verdict kind text).isOk = decide (Parses kind text) := by
  by_cases h : Parses kind text
  · simp [verdict_eq_ok h, Verdict.isOk, h]
  · obtain ⟨e, -, he⟩ := verdict_eq_invalid h
    simp [he, Verdict.isOk, h]

theorem verdict_ne_mismatch (kind : Option Kind) (text emitted : String) :
    verdict kind text ≠ .mismatch emitted := by
  by_cases h : Parses kind text
  · simp [verdict_eq_ok h]
  · obtain ⟨e, -, he⟩ := verdict_eq_invalid h
    simp [he]

theorem unlines_verdict (kind : Option Kind) (text : String) :
    unlines ((verdict kind text).lines text) = report kind text := by
  by_cases h : Parses kind text
  · obtain ⟨d, hd⟩ := h
    simp [verdict_eq_ok ⟨d, hd⟩, Verdict.lines, unlines, report, hd]
  · obtain ⟨e, hparse, he⟩ := verdict_eq_invalid h
    simp only [he, Verdict.lines, unlines, report, hparse, List.map_cons, List.map_nil,
      String.join_cons, String.join_nil, String.append_empty, String.append_assoc]

/-! ## All texts -/

theorem unlines_append (lines more : List String) :
    unlines (lines ++ more) = unlines lines ++ unlines more := by
  simp [unlines, String.join_append]

theorem unlines_flatMap (xs : List α) (f : α → List String) :
    unlines (xs.flatMap f) = String.join (xs.map fun x => unlines (f x)) := by
  induction xs with
  | nil => rfl
  | cons x xs ih => rw [List.flatMap_cons, unlines_append, ih, List.map_cons, String.join_cons]

/-- How many of the texts do not parse. -/
def failures (kind : Option Kind) (texts : List String) : Nat :=
  texts.countP fun text => ¬Parses kind text

theorem length_filter_verdict (kind : Option Kind) (texts : List String) :
    (texts.filter fun s => !(verdict kind s).isOk).length = failures kind texts := by
  simp [failures, List.countP_eq_length_filter, verdict_isOk]

theorem failures_eq_zero_iff {texts : List String} :
    failures kind texts = 0 ↔ ∀ text ∈ texts, Parses kind text := by
  simp [failures, List.countP_eq_zero]

theorem check_code_eq_zero_iff {texts : List String} :
    (check texts kind).code = 0 ↔ ∀ text ∈ texts, Parses kind text := by
  simp only [check, length_filter_verdict, ← failures_eq_zero_iff]
  split <;> omega

/-! ## Texts without a named kind -/

theorem parse_code_eq_zero_iff {format : Format} :
    (parse text kind format).code = 0 ↔ Parses kind text := by
  rw [parse, Parses]
  cases Document.parse text (kind.getD (.infer text)) with
  | ok d => cases format <;> simp
  | error e => simp [Output.failed]

/-- A method is always taken for what it is. Any other signature that begins in its own way is so
exactly if none of its names holds a bracket, and only then do the commands accept it. -/
theorem infer_agrees_iff {kind : Kind} {d : Document} (h : Document.parse text kind = .ok d) :
    (d.Marked ↔ (kind = .ofClass → text.toList.head? = some '<')) ∧
      (Kind.infer text = kind ↔ d.Marked ∧ (kind = .ofMethod ∨ d.Plain)) ∧
      (d.Marked →
        (∀ format, (parse text none format).code = 0 ↔ kind = .ofMethod ∨ d.Plain) ∧
          ∀ before after, (check (before ++ text :: after) none).code = 0 ↔
            (check (before ++ after) none).code = 0 ∧ (kind = .ofMethod ∨ d.Plain)) := by
  obtain ⟨hwell, rfl, rfl⟩ := Document.parse_eq_ok_iff.1 h
  refine ⟨hwell.marked_iff, hwell.infer_eq_iff, fun hmarked => ?_⟩
  have hparses : Parses none d.text ↔ d.kind = .ofMethod ∨ d.Plain :=
    Document.exists_parse_infer_iff hwell hmarked
  refine ⟨fun format => parse_code_eq_zero_iff.trans hparses, fun before after => ?_⟩
  simp only [check_code_eq_zero_iff, ← hparses, List.forall_mem_append, List.forall_mem_cons]
  tauto

theorem infer_agrees_of_class :
    Kind.infer "<T:LA;>LB<TT;>;" = .ofClass ∧ (check ["<T:LA;>LB<TT;>;"] none).code = 0 := by
  let d : Document := .ofClass ⟨[⟨"T", some (.classType (.mk "A" []) []), []⟩],
    .classType (.mk "B" [.bounded .exact (.typeVariable "T") false]) [], []⟩
  have hparse : Document.parse "<T:LA;>LB<TT;>;" .ofClass = .ok d := rfl
  obtain ⟨hmarked, hinfer, hcommands⟩ := infer_agrees_iff hparse
  have hhead := hmarked.2 fun _ => rfl
  have hplain : d.Plain := by decide
  exact ⟨hinfer.2 ⟨hhead, .inr hplain⟩, ((hcommands hhead).2 [] []).2 ⟨rfl, .inr hplain⟩⟩

/-- The name of a class may hold a bracket, and then its type is taken for a method. -/
theorem not_infer_agrees :
    Document.parse "La(b;" .ofType = .ok (.ofType (.classType (.mk "a(b" []) [])) ∧
      Kind.infer "La(b;" = .ofMethod ∧ (parse "La(b;" none .text).code = 2 ∧
      (check ["La(b;"] none).code = 1 :=
  ⟨rfl, by decide, by decide, by decide⟩

end ClassUnit.CommandLine
