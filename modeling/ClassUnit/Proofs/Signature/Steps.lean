import ClassUnit.Proofs.Signature.Reading

/-! # Reading step by step

A reading is the sequence of its steps. So what every step keeps holds of the whole reading
(`Reading.satisfies_of_steps`), and a text is read the same way whatever stands behind it: either a
fault has ended the reading, or it goes on where it stands (`Reading.run_cut`). Only that the text
ends, or that a name has no end, is not known before the text is known to end. -/

namespace ClassUnit.Signature
open Reader

/-! ## What a step keeps -/

/-- What holds of the events of a step, of the state behind it, and of its fault. -/
structure Reader.Step.Satisfies (event : Delivery → Prop) (state : State → Prop)
    (fault : Fault → Prop) (step : Step) : Prop where
  deliveries : ∀ d ∈ step.deliveries, event d
  next : ∀ s, step.next = .ok s → state s
  fault : ∀ f, step.next = .error f → fault f

namespace Reader.Step.Satisfies

variable {event : Delivery → Prop} {state : State → Prop} {fault : Fault → Prop}

theorem fail (h : fault ⟨offset, reason⟩) : (Step.fail offset reason).Satisfies event state fault := by
  refine ⟨List.forall_mem_nil _, ?_, ?_⟩
  · intro s hs
    cases hs
  · rintro f ⟨⟩
    exact h

theorem go (h : state s) : (Step.go s).Satisfies event state fault := by
  refine ⟨List.forall_mem_nil _, ?_, ?_⟩
  · rintro s ⟨⟩
    exact h
  · intro f hf
    cases hf

theorem after {step : Step} (hd : event d) (h : step.Satisfies event state fault) :
    (step.after d).Satisfies event state fault :=
  ⟨List.forall_mem_cons.2 ⟨hd, h.deliveries⟩, h.next, h.fault⟩

end Reader.Step.Satisfies

namespace Reading

/-- What every step of a reading keeps. The state may be judged by what has been read. -/
theorem satisfies_of_steps {text : List Char} {event : Delivery → Prop}
    {state : List Char → State → Prop} {fault : Fault → Prop}
    (hstep : ∀ before c rest s, text = before ++ c :: rest → state before s →
      (s.step (width before) c).Satisfies event (state (before ++ [c])) fault)
    (hfinish : ∀ s f, state text s → s.finish (width text) = some f → fault f)
    {before rest : List Char} {s : State} (htext : text = before ++ rest) (hs : state before s) :
    (∀ d ∈ (run s (width before) rest).deliveries, event d) ∧
      ∀ f, (run s (width before) rest).fault = some f → fault f := by
  induction rest generalizing before s with
  | nil =>
    rw [List.append_nil] at htext
    subst htext
    exact ⟨List.forall_mem_nil _, fun f hf => hfinish s f hs hf⟩
  | cons c rest ih =>
    have hone := hstep before c rest s htext hs
    have hoffset : width before + c.utf8Size = width (before ++ [c]) := by simp
    rw [run_cons, proceed]
    cases hnext : (s.step (width before) c).next with
    | error f =>
      refine ⟨hone.deliveries, ?_⟩
      rintro _ ⟨⟩
      exact hone.fault f hnext
    | ok next =>
      have htext' : text = before ++ [c] ++ rest := by simpa using htext
      obtain ⟨hdeliveries, hfault⟩ := ih htext' (hone.next next hnext)
      rw [hoffset]
      exact ⟨List.forall_mem_append.2 ⟨hone.deliveries, hdeliveries⟩, hfault⟩

/-! ## What follows a text -/

/-- What follows a text is not read, for a fault in the text; or it is read on from where the text
has left the reader. -/
theorem run_cut (s : State) (offset : Nat) (cs : List Char) :
    (∀ rest, run s offset (cs ++ rest) = run s offset cs) ∨
      ∃ ds next, ∀ rest,
        run s offset (cs ++ rest) = (run next (offset + width cs) rest).after ds := by
  induction cs generalizing s offset with
  | nil => exact .inr ⟨[], s, fun rest => rfl⟩
  | cons c cs ih =>
    cases hnext : (s.step offset c).next with
    | error fault =>
      left
      intro rest
      rw [List.cons_append, run_cons, run_cons, proceed, proceed, hnext]
    | ok next =>
      have hcons : ∀ rest, run s offset (c :: (cs ++ rest)) =
          (run next (offset + c.utf8Size) (cs ++ rest)).after (s.step offset c).deliveries := by
        intro rest
        rw [run_cons, proceed, hnext]
      rcases ih next (offset + c.utf8Size) with hsame | ⟨ds, next', hon⟩
      · left
        intro rest
        have hwhole := hcons []
        rw [List.append_nil] at hwhole
        rw [List.cons_append, hcons, hsame, hwhole]
      · right
        refine ⟨(s.step offset c).deliveries ++ ds, next', ?_⟩
        intro rest
        rw [List.cons_append, hcons, hon, after_after, width_cons, Nat.add_assoc]

/-- The end of a text is at fault only in two ways. -/
theorem reason_of_finish {s : State} {fault : Fault} (h : s.finish offset = some fault) :
    fault.reason = .unexpectedEnd ∨ ∃ delimiter, fault.reason = .missing delimiter := by
  cases s with
  | complete | interfaces | exceptions => cases h
  | formalName | variableName =>
    cases h
    exact .inr ⟨_, rfl⟩
  | _ =>
    cases h
    exact .inl rfl

/-- Texts of one kind are all read from the same state. -/
theorem exists_run (kind : Kind) : ∃ s, ∀ text, ofKind kind text = run s 0 text.toList := by
  cases kind with
  | ofType => exact ⟨_, fun _ => rfl⟩
  | ofClass | ofMethod => exact ⟨_, fun _ => rfl⟩

/-- Reading goes from left to right. What a text gives is given by every text that it begins, and
no fault in it is revised by what follows, unless it is the end of the text that is at fault. -/
theorem ofKind_append (kind : Kind) (s t : String) :
    (ofKind kind s).deliveries <+: (ofKind kind (s ++ t)).deliveries ∧
      ∀ fault, (ofKind kind s).fault = some fault → fault.reason ≠ .unexpectedEnd →
        (∀ delimiter, fault.reason ≠ .missing delimiter) →
          ofKind kind (s ++ t) = ofKind kind s := by
  obtain ⟨first, hfirst⟩ := exists_run kind
  rw [hfirst, hfirst, String.toList_append]
  rcases run_cut first 0 s.toList with hsame | ⟨ds, next, hon⟩
  · rw [hsame]
    exact ⟨List.prefix_rfl, fun _ _ _ _ => rfl⟩
  · have hend := hon []
    rw [List.append_nil, run_nil] at hend
    rw [hon, hend]
    refine ⟨?_, ?_⟩
    · rw [deliveries_after, deliveries_after, List.append_nil]
      exact List.prefix_append ..
    · intro fault hfault hopen hmissing
      rw [fault_after] at hfault
      rcases reason_of_finish hfault with hreason | ⟨delimiter, hreason⟩
      · exact absurd hreason hopen
      · exact absurd hreason (hmissing delimiter)

/-- The argument list is followed by a letter of two bytes. What comes then would close the type
and the parameter list. -/
theorem ofKind_append_refused :
    ((ofKind .ofMethod "(La<TX;>é").fault = some ⟨8, .openArguments⟩ ∧
      Reason.openArguments ≠ .unexpectedEnd ∧
      ∀ delimiter, Reason.openArguments ≠ .missing delimiter) ∧
      [⟨0, .parameter⟩, ⟨1, .classType "a"⟩, ⟨1, .argument .exact⟩, ⟨2, .typeVariable "X"⟩] <+:
        (ofKind .ofMethod ("(La<TX;>é" ++ ";)V")).deliveries ∧
      (ofKind .ofMethod ("(La<TX;>é" ++ ";)V")).fault = some ⟨8, .openArguments⟩ := by
  have hfault : (ofKind .ofMethod "(La<TX;>é").fault = some ⟨8, .openArguments⟩ := rfl
  have hmissing : ∀ delimiter, Reason.openArguments ≠ .missing delimiter := by
    rintro delimiter ⟨⟩
  obtain ⟨hcalls, hsame⟩ := ofKind_append .ofMethod "(La<TX;>é" ";)V"
  refine ⟨⟨hfault, by decide, hmissing⟩, hcalls, ?_⟩
  rw [hsame _ hfault (by decide) hmissing]
  exact hfault

end Reading

end ClassUnit.Signature
