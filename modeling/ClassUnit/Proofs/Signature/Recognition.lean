import ClassUnit.Proofs.Signature.Reading

/-! # Recognizing signatures

The converse of reading a spelled tree: whatever the text, either it begins with the spelling of a
well-formed tree, or a fault breaks the reading off and the events so far begin the events of some
tree. The induction is on the length of the text; a part that was recognized is read on with the
equations of `Reading.run` for spelled trees. -/

namespace ClassUnit.Signature
open Reader

/-- A fault has ended the reading, after events that begin `whole`. -/
structure Reading.BreaksOff (r : Reading) (whole : List Delivery) : Prop where
  fault : r.fault ≠ none
  events_prefix : r.deliveries <+: whole

namespace Reading

theorem BreaksOff.of_fault (fault : Fault) (whole : List Delivery) :
    BreaksOff ⟨[], some fault⟩ whole :=
  ⟨by simp, List.nil_prefix⟩

theorem BreaksOff.after {r : Reading} (h : r.BreaksOff whole) (ds : List Delivery) :
    (r.after ds).BreaksOff (ds ++ whole) :=
  ⟨h.fault, List.prefix_append_right_inj ds |>.2 h.events_prefix⟩

theorem BreaksOff.append {r : Reading} (h : r.BreaksOff whole) (more : List Delivery) :
    r.BreaksOff (whole ++ more) :=
  ⟨h.fault, h.events_prefix.trans (List.prefix_append ..)⟩

/-- A text goes on to the first character that ends a name, or has none. -/
theorem exists_name (ends : Char → Bool) (cs : List Char) :
    ∃ name rest, cs = name ++ rest ∧ (∀ c ∈ name, ¬ends c) ∧
      (rest = [] ∨ ∃ c tail, rest = c :: tail ∧ ends c) := by
  induction cs with
  | nil => exact ⟨[], [], rfl, by simp, .inl rfl⟩
  | cons c cs ih =>
    by_cases hc : ends c
    · exact ⟨[], c :: cs, rfl, by simp, .inr ⟨c, cs, rfl, hc⟩⟩
    · obtain ⟨name, rest, rfl, hname, hrest⟩ := ih
      refine ⟨c :: name, rest, rfl, ?_, hrest⟩
      rintro d (_ | ⟨_, hd⟩)
      · exact hc
      · exact hname d hd

/-- A name that a delimiter ends is read up to the delimiter, unless it is empty or goes on to the
end of the text. -/
theorem name_or_fault {S : List Char → State} {d : Char}
    (hS : ∀ offset c acc, c ≠ d → (S acc).step offset c = .go (S (c :: acc)))
    (hempty : ∀ offset, ∃ place reason, (S []).step offset d = .fail place reason)
    (hend : ∀ offset acc, (S acc).finish offset ≠ none) (cs : List Char) (offset : Nat) :
    (∃ (name : String) (rest : List Char), name ≠ "" ∧ d ∉ name.toList ∧
        cs = name.toList ++ d :: rest) ∨
      ∃ fault, run (S []) offset cs = ⟨[], some fault⟩ := by
  obtain ⟨name, rest, rfl, hname, hrest⟩ := exists_name (· = d) cs
  have hrun : run (S []) offset (name ++ rest) =
      run (S (name.reverse ++ [])) (offset + width name) rest :=
    run_name S (· = d) (fun offset c acc hc => hS offset c acc (by simpa using hc)) hname
  rcases hrest with rfl | ⟨c, tail, rfl, hc⟩
  · obtain ⟨fault, hfault⟩ := Option.ne_none_iff_exists'.1
      (hend (offset + width name) (name.reverse ++ []))
    exact .inr ⟨fault, by rw [hrun, run_nil, hfault]⟩
  · obtain rfl : c = d := by simpa using hc
    cases name with
    | nil =>
      obtain ⟨place, reason, hfail⟩ := hempty offset
      exact .inr ⟨⟨place, reason⟩, by rw [List.nil_append, run_cons, hfail, proceed_fail]⟩
    | cons b name =>
      refine .inl ⟨String.ofList (b :: name), tail, by simp, ?_, by simp⟩
      rw [String.toList_ofList]
      exact fun hmem => hname _ hmem (by simp)

/-- What is wrong behind an argument list is seen from the next character. -/
theorem endsArguments_or_fault (place : Place) (context : Context) (offset : Nat)
    (rest : List Char) :
    EndsArguments rest ∨ ∃ fault, run (.argumentsEnd place context) offset rest =
      ⟨[], some fault⟩ := by
  cases rest with
  | nil => exact .inr ⟨_, rfl⟩
  | cons c rest =>
    by_cases hc : c = '.' ∨ c = ';'
    · exact .inl ⟨c, rest, rfl, hc⟩
    · rw [not_or] at hc
      exact .inr ⟨⟨offset, .openArguments⟩, by simp [run_cons, State.step, hc]⟩

/-- The array that is one too many is still announced. -/
theorem Awaits.run_tooMany (H : Awaits context s place dimensions)
    (h : maxDimensions ≤ dimensions) (offset : Nat) (rest : List Char) :
    ∃ fault, run s offset ('[' :: rest) = ⟨[⟨place.level, .array⟩], some fault⟩ := by
  cases H with
  | type => simp [maxDimensions] at h
  | element =>
    have hlt : maxDimensions < dimensions + 1 := by omega
    simp [run_cons, State.step, hlt, Reading.after]

/-- A type that stands too deep is not looked at. -/
theorem Awaits.run_tooDeep (H : Awaits context s place dimensions) (hc : c ≠ '[')
    (h : maxNesting < place.depth) (offset : Nat) (rest : List Char) :
    ∃ fault, run s offset (c :: rest) = ⟨[], some fault⟩ := by
  cases H with
  | type hdepth => omega
  | element => simp [run_cons, State.step, hc, beginType, h]

/-- What is neither the end of the list nor an unbounded argument begins a bounded one. -/
theorem run_arguments_bounded (place : Place) (fresh : Bool) (context : Context) (offset : Nat)
    (rest : List Char) (hend : c ≠ '>') (hstar : c ≠ '*') :
    ∃ (variance : Variance) (tagged : Bool) (cs : List Char), (tagged → variance = .exact) ∧
      c :: rest = variance.mark tagged ++ cs ∧
      ((∃ fault, run (.arguments place fresh context) offset (c :: rest) =
          ⟨[⟨place.level, variance.event tagged⟩], some fault⟩) ∨
        place.inside.depth ≤ maxNesting ∧ ∃ offset',
          run (.arguments place fresh context) offset (c :: rest) =
            (run (.type place.inside (context.within place)) offset' cs).after
              [⟨place.level, variance.event tagged⟩]) := by
  have hmarked : ∀ (variance : Variance) (tagged : Bool),
      (State.arguments place fresh context).step offset c =
        .after ⟨place.level, variance.event tagged⟩
          (expectType (offset + 1) place.inside (context.within place)) →
      (∃ fault, run (.arguments place fresh context) offset (c :: rest) =
          ⟨[⟨place.level, variance.event tagged⟩], some fault⟩) ∨
        place.inside.depth ≤ maxNesting ∧ ∃ offset',
          run (.arguments place fresh context) offset (c :: rest) =
            (run (.type place.inside (context.within place)) offset' rest).after
              [⟨place.level, variance.event tagged⟩] := by
    intro variance tagged hstep
    by_cases hdepth : place.inside.depth ≤ maxNesting
    · exact .inr ⟨hdepth, _, by rw [run_cons, hstep, proceed_after, proceed_expectType hdepth]⟩
    · left
      rw [run_cons, hstep, proceed_after]
      simp [expectType, Nat.not_le.1 hdepth, Reading.after]
  by_cases htagged : c = '='
  · subst htagged
    exact ⟨.exact, true, rest, by simp, rfl, hmarked _ _ (by simp [State.step, Variance.event])⟩
  by_cases hextending : c = '+'
  · subst hextending
    exact ⟨.extending, false, rest, by simp, rfl,
      hmarked _ _ (by simp [State.step, Variance.event])⟩
  by_cases hsuper : c = '-'
  · subst hsuper
    exact ⟨.superOf, false, rest, by simp, rfl,
      hmarked _ _ (by simp [State.step, Variance.event])⟩
  refine ⟨.exact, false, c :: rest, by simp, rfl, ?_⟩
  have hstep : (State.arguments place fresh context).step offset c =
      .after ⟨place.level, .argument .exact⟩
        (beginType offset place.inside (context.within place) c) := by
    simp [State.step, hend, hstar, htagged, hextending, hsuper]
  by_cases hdepth : place.inside.depth ≤ maxNesting
  · refine .inr ⟨hdepth, offset, ?_⟩
    rw [run_cons, hstep, proceed_after, proceed_beginType hdepth]
    rfl
  · left
    rw [run_cons, hstep, proceed_after]
    simp [beginType, Nat.not_le.1 hdepth, Reading.after, Variance.event]

/-! ## Types -/

mutual

/-- Where a type is expected, the text begins with one or breaks off inside one. -/
theorem type_or_breaksOff (cs : List Char) (offset : Nat)
    (H : Awaits context s place dimensions) (hd : dimensions ≤ maxDimensions) :
    (∃ (t : TypeTree) (rest : List Char), t.WellFormed place.depth ∧
        dimensions + t.dimensions ≤ maxDimensions ∧ cs = t.spelling ++ rest) ∨
      ∃ t : TypeTree, (run s offset cs).BreaksOff (t.deliveries place.level) := by
  match cs with
  | [] =>
    refine .inr ⟨.base 'V', ?_⟩
    cases H <;> exact .of_fault ..
  | c :: cs =>
    by_cases hc : c = '['
    · subst hc
      -- The limit on arrays in a row is looked at before the limit on the depth.
      rcases Nat.lt_or_ge dimensions maxDimensions with hlt | hge
      · rw [H.run_array hlt]
        have helement : Awaits context
            (.element ⟨place.level + 1, place.depth⟩ (dimensions + 1) context)
            ⟨place.level + 1, place.depth + 1⟩ (dimensions + 1) := .element
        rcases type_or_breaksOff cs (offset + 1) helement hlt
          with ⟨t, rest, ht, hdims, rfl⟩ | ⟨t, ht⟩
        · have hdepth : place.depth + 1 ≤ maxNesting := ht.depth_le
          refine .inl ⟨.array t, rest, ⟨by omega, ?_, ht⟩, ?_, rfl⟩ <;>
            simp only [TypeTree.dimensions] at * <;> omega
        · exact .inr ⟨.array t, ht.after _⟩
      · obtain ⟨fault, hfault⟩ := H.run_tooMany hge offset cs
        rw [hfault]
        exact .inr ⟨.array (.base 'V'), by simp, by simp [TypeTree.deliveries]⟩
    rcases Nat.lt_or_ge maxNesting place.depth with hdeep | hdepth
    · obtain ⟨fault, hfault⟩ := H.run_tooDeep hc hdeep offset cs
      rw [hfault]
      exact .inr ⟨.base 'V', .of_fault ..⟩
    rw [H.run_of_ne hdepth hc, run_cons]
    by_cases hvariable : c = 'T'
    · subst hvariable
      have hstep : (State.type place context).step offset 'T' =
          .go (.variableName place.level (offset + 1) [] context) := rfl
      rw [hstep, proceed_go]
      rcases name_or_fault (S := fun acc => .variableName place.level (offset + 1) acc context)
        (d := ';') (by intro _ c _ hc; simp [State.step, hc])
        (by intro _; exact ⟨_, _, rfl⟩) (by intro _ _; simp [State.finish]) cs
        (offset + Char.utf8Size 'T') with ⟨name, rest, hne, hname, rfl⟩ | ⟨fault, hfault⟩
      · refine .inl ⟨.typeVariable name, rest, ⟨hdepth, hne, hname⟩, ?_, ?_⟩
        · simpa [TypeTree.dimensions] using hd
        · simp [TypeTree.spelling]
      · rw [hfault]
        exact .inr ⟨.base 'V', .of_fault ..⟩
    by_cases hclass : c = 'L'
    · subst hclass
      have hstep : (State.type place context).step offset 'L' =
          .go (.segmentName false place (offset + 1) [] context) := rfl
      rw [hstep, proceed_go]
      rcases segment_or_breaksOff cs false place (offset + 1) context
        (offset + 1) with ⟨outer, rest, houter, hends, rfl⟩ | ⟨outer, houter⟩
      · rw [run_segment _ _ _ _ _ _ hends outer houter]
        have hshorter : rest.length < (outer.spelling ++ rest).length + 1 := by
          simp only [List.length_append]
          omega
        rcases segments_or_breaksOff rest place context
          (offset + 1 + width outer.spelling) with ⟨inners, rest, hinners, rfl⟩ | ⟨inners, hinners⟩
        · refine .inl ⟨.classType outer inners, rest, ⟨hdepth, houter, hinners⟩, ?_, ?_⟩
          · simpa [TypeTree.dimensions] using hd
          · simp [TypeTree.spelling]
        · refine .inr ⟨.classType outer inners, ?_⟩
          exact (hinners.append _).after _
      · refine .inr ⟨.classType outer [], ?_⟩
        exact houter.append _
    by_cases hcode : isBaseCode c
    · refine .inl ⟨.base c, cs, ⟨hdepth, hcode⟩, ?_, rfl⟩
      simpa [TypeTree.dimensions] using hd
    · refine .inr ⟨.base 'V', ?_⟩
      simp only [State.step, openType, hc, hvariable, hclass, hcode, if_false]
      exact .of_fault ..
termination_by 2 * cs.length

theorem segment_or_breaksOff (cs : List Char) (inner : Bool) (place : Place) (start : Nat)
    (context : Context) (offset : Nat) :
    (∃ (s : Segment) (rest : List Char), s.WellFormed place.depth ∧ EndsArguments rest ∧
        cs = s.spelling ++ rest) ∨
      ∃ s : Segment, (run (.segmentName inner place start [] context) offset cs).BreaksOff
        (s.deliveries place.level (segmentEvent inner)) := by
  obtain ⟨name, rest, hcs, hname, hrest⟩ := exists_name endsSegment cs
  have hrun : run (.segmentName inner place start [] context) offset (name ++ rest) =
      run (.segmentName inner place start (name.reverse ++ []) context) (offset + width name)
        rest :=
    run_segmentName hname
  rcases hrest with rfl | ⟨c, tail, rfl, hc⟩
  · rw [hcs, hrun, run_nil]
    exact .inr ⟨.mk "" [], .of_fault ..⟩
  by_cases hempty : name = []
  · subst hempty
    have hfail : (State.segmentName inner place start [] context).step offset c =
        .fail start .emptyName := by
      simp only [endsSegment, Bool.or_eq_true, decide_eq_true_eq] at hc
      rcases hc with (rfl | rfl) | rfl <;> rfl
    rw [hcs, List.nil_append, run_cons, hfail, proceed_fail]
    exact .inr ⟨.mk "" [], .of_fault ..⟩
  have hne : String.ofList name ≠ "" := by simpa using hempty
  have hends : ∀ c ∈ (String.ofList name).toList, ¬endsSegment c := by simpa using hname
  by_cases hopen : c = '<'
  · subst hopen
    have hreverse : name.reverse ++ [] = (String.ofList name).toList.reverse := by simp
    have hshorter : tail.length < cs.length := by rw [hcs]; simp; omega
    rw [hcs, hrun, hreverse, run_segmentName_arguments hne]
    rcases arguments_or_breaksOff tail place true context (offset + width name + 1)
      with ⟨as, rest, has, hfresh, rfl⟩ | ⟨as, has⟩
    · have hlist : as.isEmpty = false := by simpa using hfresh rfl
      rw [run_arguments _ _ _ _ _ as has hfresh]
      rcases endsArguments_or_fault place context
        (offset + width name + 1 + width (argumentsSpelling as) + 1) rest
        with hrest | ⟨fault, hfault⟩
      · exact .inl ⟨.mk (String.ofList name) as, rest, ⟨hne, hends, has⟩, hrest, by
          simp [Segment.spelling, hlist]⟩
      · rw [hfault]
        exact .inr ⟨.mk (String.ofList name) as, by simp, by simp [Segment.deliveries]⟩
    · exact .inr ⟨.mk (String.ofList name) as, has.after _⟩
  · refine .inl ⟨.mk (String.ofList name) [], c :: tail, ⟨hne, hends, trivial⟩,
      ⟨c, tail, rfl, ?_⟩, by simp [Segment.spelling, hcs]⟩
    simpa [endsSegment, hopen] using hc
termination_by 2 * cs.length

theorem segments_or_breaksOff (cs : List Char) (place : Place) (context : Context)
    (offset : Nat) :
    (∃ (ss : List Segment) (rest : List Char), segmentsWellFormed place.depth ss ∧
        cs = segmentsSpelling ss ++ ';' :: rest) ∨
      ∃ ss : List Segment, (run (.argumentsEnd place context) offset cs).BreaksOff
        (segmentDeliveries place.level ss) := by
  match cs with
  | [] => exact .inr ⟨[], .of_fault ..⟩
  | c :: cs =>
    by_cases hdot : c = '.'
    · subst hdot
      have hstep : (State.argumentsEnd place context).step offset '.' =
          .go (.segmentName true place (offset + 1) [] context) := rfl
      rw [run_cons, hstep, proceed_go]
      rcases segment_or_breaksOff cs true place (offset + 1) context
        (offset + Char.utf8Size '.') with ⟨s, rest, hs, hends, rfl⟩ | ⟨s, hs⟩
      · rw [run_segment _ _ _ _ _ _ hends s hs]
        have hshorter : rest.length < (s.spelling ++ rest).length + 1 := by
          simp only [List.length_append]
          omega
        rcases segments_or_breaksOff rest place context
          (offset + Char.utf8Size '.' + width s.spelling) with ⟨ss, rest, hss, rfl⟩ | ⟨ss, hss⟩
        · exact .inl ⟨s :: ss, rest, ⟨hs, hss⟩, by simp [segmentsSpelling]⟩
        · exact .inr ⟨s :: ss, hss.after _⟩
      · exact .inr ⟨[s], hs.append _⟩
    by_cases hend : c = ';'
    · subst hend
      exact .inl ⟨[], cs, trivial, rfl⟩
    · refine .inr ⟨[], ?_⟩
      simp only [run_cons, State.step, hdot, hend, if_false]
      exact .of_fault ..
termination_by 2 * cs.length

theorem arguments_or_breaksOff (cs : List Char) (place : Place) (fresh : Bool)
    (context : Context) (offset : Nat) :
    (∃ (as : List Argument) (rest : List Char), argumentsWellFormed place.depth as ∧
        (fresh → as ≠ []) ∧ cs = argumentsSpelling as ++ '>' :: rest) ∨
      ∃ as : List Argument, (run (.arguments place fresh context) offset cs).BreaksOff
        (argumentDeliveries place.level as) := by
  match cs with
  | [] => exact .inr ⟨[], .of_fault ..⟩
  | c :: cs =>
    by_cases hend : c = '>'
    · subst hend
      cases fresh with
      | true => exact .inr ⟨[], .of_fault ..⟩
      | false => exact .inl ⟨[], cs, trivial, by simp, rfl⟩
    by_cases hstar : c = '*'
    · subst hstar
      have hstep : (State.arguments place fresh context).step offset '*' =
          .after ⟨place.level, .unbounded⟩ (.go (.arguments place false context)) := rfl
      rw [run_cons, hstep, proceed_after, proceed_go]
      rcases arguments_or_breaksOff cs place false context
        (offset + Char.utf8Size '*') with ⟨as, rest, has, -, rfl⟩ | ⟨as, has⟩
      · exact .inl ⟨.unbounded :: as, rest, ⟨trivial, has⟩, by simp, rfl⟩
      · exact .inr ⟨.unbounded :: as, has.after _⟩
    obtain ⟨variance, tagged, bound, htag, hcs, ⟨fault, hfault⟩ | ⟨hdepth, offset', hrun⟩⟩ :=
      run_arguments_bounded place fresh context offset cs hend hstar
    · rw [hfault]
      refine .inr ⟨[.bounded variance (.base 'V') tagged], by simp, ?_⟩
      simp [argumentDeliveries, Argument.deliveries_bounded]
    -- Without a mark the bound is all of the text, so the measure of a list is one above.
    have hlength : bound.length ≤ cs.length + 1 := by
      rw [← List.length_cons, hcs]
      simp
    rw [hrun]
    have hawaits : Awaits (context.within place) (.type place.inside (context.within place))
        place.inside 0 := .type hdepth
    rcases type_or_breaksOff bound offset' hawaits (Nat.zero_le _)
      with ⟨t, rest, ht, -, rfl⟩ | ⟨t, ht⟩
    · have hargument := run_argument place fresh context offset rest (.bounded variance t tagged)
        ⟨htag, ht⟩
      simp only [Argument.spelling, List.append_assoc, ← hcs] at hargument
      have hshorter : rest.length < cs.length + 1 := by
        have := ht.spelling_length_pos
        simp only [List.length_append] at hlength
        omega
      rw [← hrun, hargument]
      rcases arguments_or_breaksOff rest place false context _
        with ⟨as, rest, has, -, rfl⟩ | ⟨as, has⟩
      · exact .inl ⟨.bounded variance t tagged :: as, rest, ⟨⟨htag, ht⟩, has⟩, by simp, by
          simp [hcs, argumentsSpelling, Argument.spelling]⟩
      · exact .inr ⟨.bounded variance t tagged :: as, has.after _⟩
    · refine .inr ⟨[.bounded variance t tagged], ?_⟩
      rw [argumentDeliveries, Argument.deliveries_bounded]
      exact (ht.after _).append _
termination_by 2 * cs.length + 1

end

/-! ## Signatures -/

theorem rootType_or_breaksOff (slot : Slot) (cs : List Char) (offset : Nat) :
    (∃ (t : TypeTree) (rest : List Char), t.WellFormed 0 ∧ cs = t.spelling ++ rest) ∨
      ∃ t : TypeTree, (run (.type rootPlace ⟨slot, []⟩) offset cs).BreaksOff (t.deliveries 1) := by
  have hawaits : Awaits ⟨slot, []⟩ (.type rootPlace ⟨slot, []⟩) rootPlace 0 :=
    .type (Nat.zero_le _)
  rcases type_or_breaksOff cs offset hawaits (Nat.zero_le _) with ⟨t, rest, ht, -, hcs⟩ | h
  · exact .inl ⟨t, rest, ht, hcs⟩
  · exact .inr h

/-- A state between the types of a list. Either the list stops there, or `lead` and a further type
are expected, or nothing may stand there. -/
def Lists (s : State) (slot : Slot) (event : Event) (lead : List Char)
    (Stop : List Char → Prop) : Prop :=
  Context.after ⟨slot, []⟩ = s ∧ ∀ cs offset, Stop cs ∨
    (∃ rest offset', cs = lead ++ rest ∧ run s offset cs =
      (run (.type rootPlace ⟨slot, []⟩) offset' rest).after [⟨0, event⟩]) ∨
    ∃ fault, run s offset cs = ⟨[], some fault⟩

theorem lists_interfaces : Lists .interfaces .supertype .interface [] (· = []) := by
  refine ⟨rfl, fun cs offset => ?_⟩
  cases cs with
  | nil => exact .inl rfl
  | cons c cs =>
    refine .inr (.inl ⟨c :: cs, offset, rfl, ?_⟩)
    rw [run_cons, State.step, proceed_after, proceed_beginType (Nat.zero_le _)]

theorem lists_parameters :
    Lists .parameters .parameter .parameter [] fun rest => ∃ tail, rest = ')' :: tail := by
  refine ⟨rfl, fun cs offset => ?_⟩
  cases cs with
  | nil => exact .inr (.inr ⟨_, rfl⟩)
  | cons c cs =>
    by_cases hc : c = ')'
    · exact .inl ⟨cs, by rw [hc]⟩
    · refine .inr (.inl ⟨c :: cs, offset, rfl, ?_⟩)
      rw [run_cons, State.step, if_neg hc, proceed_after, proceed_beginType (Nat.zero_le _)]

theorem lists_exceptions : Lists .exceptions .result .exception ['^'] (· = []) := by
  refine ⟨rfl, fun cs offset => ?_⟩
  cases cs with
  | nil => exact .inl rfl
  | cons c cs =>
    by_cases hc : c = '^'
    · refine .inr (.inl ⟨cs, offset + c.utf8Size, by rw [hc]; rfl, ?_⟩)
      rw [run_cons, State.step, if_pos hc, proceed_after, proceed_expectType (Nat.zero_le _)]
    · refine .inr (.inr ⟨⟨offset, .unmarkedException⟩, ?_⟩)
      rw [run_cons, State.step, if_neg hc, proceed_fail]

/-- The interface bounds of a formal type parameter go on to a character that is no colon. -/
theorem lists_interfaceBounds : Lists .moreBounds .bound .interfaceBound [':']
    fun rest => ∃ c tail, rest = c :: tail ∧ c ≠ ':' := by
  refine ⟨rfl, fun cs offset => ?_⟩
  cases cs with
  | nil => exact .inr (.inr ⟨_, rfl⟩)
  | cons c cs =>
    by_cases hc : c = ':'
    · refine .inr (.inl ⟨cs, offset + c.utf8Size, by rw [hc]; rfl, ?_⟩)
      rw [run_cons, State.step, continueFormals, if_pos hc, proceed_after,
        proceed_expectType (Nat.zero_le _)]
    · exact .inl ⟨c, cs, rfl, hc⟩

/-- A list of types is recognized up to where it stops, or the text breaks off inside of it. -/
theorem all_or_breaksOff (H : Lists s slot event lead Stop) (cs : List Char) (offset : Nat) :
    (∃ (ts : List TypeTree) (rest : List Char), (∀ t ∈ ts, t.WellFormed 0) ∧ Stop rest ∧
        cs = ts.flatMap (fun t => lead ++ t.spelling) ++ rest) ∨
      ∃ ts : List TypeTree, (run s offset cs).BreaksOff (ts.flatMap (announced event)) := by
  rcases H.2 cs offset with hstop | ⟨rest, offset', rfl, hrun⟩ | ⟨fault, hfault⟩
  · exact .inl ⟨[], cs, by simp, hstop, rfl⟩
  · rcases rootType_or_breaksOff slot rest offset' with ⟨t, rest, ht, rfl⟩ | ⟨t, ht⟩
    · have hshorter : rest.length < (lead ++ (t.spelling ++ rest)).length := by
        have := ht.spelling_length_pos
        simp only [List.length_append]
        omega
      rw [hrun, run_rootType ht, H.1]
      rcases all_or_breaksOff H rest (offset' + width t.spelling)
        with ⟨ts, rest, hts, hstop, rfl⟩ | ⟨ts, hts⟩
      · exact .inl ⟨t :: ts, rest, by simpa using ⟨ht, hts⟩, hstop, by simp⟩
      · exact .inr ⟨t :: ts, (hts.after _).after _⟩
    · refine .inr ⟨[t], ?_⟩
      rw [hrun, List.flatMap_singleton]
      exact ht.after _
  · rw [hfault]
    exact .inr ⟨[], .of_fault ..⟩
termination_by cs.length

/-- Behind the name of a formal type parameter stand its bounds. -/
theorem formalBounds_or_breaksOff (cs : List Char) (offset : Nat) :
    (∃ (bound : Option TypeTree) (bounds : List TypeTree) (c : Char) (rest : List Char),
        (∀ t, bound = some t → t.WellFormed 0 ∧ ¬t.isBase) ∧
        (∀ t ∈ bounds, t.WellFormed 0) ∧ c ≠ ':' ∧
        (bound = none → bounds = [] → ¬opensClassBound c) ∧
        cs = bound.toList.flatMap TypeTree.spelling ++
          (bounds.flatMap (fun t => ':' :: t.spelling) ++ c :: rest)) ∨
      ∃ (bound : Option TypeTree) (bounds : List TypeTree),
        (run .formalBounds offset cs).BreaksOff (bound.toList.flatMap (announced .classBound) ++
          bounds.flatMap (announced .interfaceBound)) := by
  match cs with
  | [] => exact .inr ⟨none, [], .of_fault ..⟩
  | c :: cs =>
    by_cases hopens : opensClassBound c
    · have hrun : run .formalBounds offset (c :: cs) =
          (run (.type rootPlace ⟨.bound, []⟩) offset (c :: cs)).after [⟨0, .classBound⟩] := by
        have hc : c = 'L' ∨ c = '[' ∨ c = 'T' := by simpa [opensClassBound, or_assoc] using hopens
        rw [run_cons, State.step, if_pos hc, proceed_after, proceed_beginType (Nat.zero_le _)]
      rw [hrun]
      rcases rootType_or_breaksOff .bound (c :: cs) offset with ⟨t, rest, ht, hcs⟩ | ⟨t, ht⟩
      · have hbase : ¬t.isBase := by
          obtain ⟨d, ds, hds, -, -, hbound⟩ := ht.spelling_cons
          rw [hds, List.cons_append, List.cons.injEq] at hcs
          exact hbound.1 (hcs.1 ▸ hopens)
        rw [hcs, run_rootType ht]
        rcases all_or_breaksOff lists_interfaceBounds rest (offset + width t.spelling)
          with ⟨ts, rest, hts, ⟨d, tail, rfl, hd⟩, rfl⟩ | ⟨ts, hts⟩
        · refine .inl ⟨some t, ts, d, tail, ?_, hts, hd, by simp, by simp⟩
          rintro t ⟨⟩
          exact ⟨ht, hbase⟩
        · refine .inr ⟨some t, ts, ?_⟩
          rw [after_after, Option.toList_some, List.flatMap_singleton]
          exact hts.after (announced .classBound t)
      · refine .inr ⟨some t, [], ?_⟩
        rw [Option.toList_some, List.flatMap_singleton, List.flatMap_nil, List.append_nil]
        exact ht.after _
    · have hrun : run .formalBounds offset (c :: cs) = run .moreBounds offset (c :: cs) :=
        run_formalBounds_of_not_opens (by rintro d ⟨⟩; exact hopens)
      rw [hrun]
      rcases all_or_breaksOff lists_interfaceBounds (c :: cs) offset
        with ⟨ts, rest, hts, ⟨d, tail, rfl, hd⟩, hcs⟩ | ⟨ts, hts⟩
      · refine .inl ⟨none, ts, d, tail, by simp, hts, hd, ?_, by simp [hcs]⟩
        rintro - rfl
        rw [List.flatMap_nil, List.nil_append, List.cons.injEq] at hcs
        exact hcs.1 ▸ hopens
      · exact .inr ⟨none, ts, by simpa using hts⟩

/-- The formal type parameter `f` is closed by the character `c`. -/
def EndsFormal (f : Formal) (c : Char) : Prop := c ≠ ':' ∧ (f.unbounded → ¬opensClassBound c)

theorem formal_or_breaksOff (cs : List Char) (offset : Nat) :
    (∃ (f : Formal) (c : Char) (rest : List Char), f.WellFormed ∧ EndsFormal f c ∧
        cs = f.spelling ++ c :: rest) ∨
      ∃ f : Formal, (run (.formalName offset []) offset cs).BreaksOff f.deliveries := by
  rcases name_or_fault (S := fun acc => .formalName offset acc) (d := ':')
    (by intro _ c _ hc; simp [State.step, hc]) (by intro _; exact ⟨_, _, rfl⟩)
    (by intro _ _; simp [State.finish]) cs offset
    with ⟨name, rest, hne, hname, rfl⟩ | ⟨fault, hfault⟩
  · have hcolon : ∀ c ∈ name.toList, ¬c = ':' := List.forall_mem_ne'.2 hname
    have hrun : run (.formalName offset []) offset (name.toList ++ ':' :: rest) =
        (run .formalBounds (offset + width name.toList + Char.utf8Size ':') rest).after
          [⟨0, .formal name⟩] := by
      rw [run_formalName hcolon, run_cons]
      simp [State.step, hne]
    rw [hrun]
    rcases formalBounds_or_breaksOff rest (offset + width name.toList + Char.utf8Size ':')
      with ⟨bound, bounds, c, rest, hbound, hbounds, hc, hopens, rfl⟩ | ⟨bound, bounds, h⟩
    · refine .inl ⟨⟨name, bound, bounds⟩, c, rest, ⟨hne, hname, hbound, hbounds⟩, ⟨hc, ?_⟩, ?_⟩
      · intro hunbounded
        simp only [Formal.unbounded, Bool.and_eq_true, Option.isNone_iff_eq_none,
          List.isEmpty_iff] at hunbounded
        exact hopens hunbounded.1 hunbounded.2
      · simp [Formal.spelling]
    · exact .inr ⟨⟨name, bound, bounds⟩, h.after _⟩
  · rw [hfault]
    exact .inr ⟨⟨"", none, []⟩, .of_fault ..⟩

/-- The formal type parameters from the name of one of them on. -/
theorem formals_or_breaksOff (cs : List Char) (offset : Nat) :
    (∃ (f : Formal) (fs : List Formal) (rest : List Char), FormalsWellFormed (f :: fs) ∧
        cs = (f :: fs).flatMap Formal.spelling ++ '>' :: rest) ∨
      ∃ fs : List Formal,
        (run (.formalName offset []) offset cs).BreaksOff (fs.flatMap Formal.deliveries) := by
  rcases formal_or_breaksOff cs offset with ⟨f, c, rest, hf, ⟨hcolon, hopens⟩, rfl⟩ | ⟨f, hf⟩
  · have hnext : f.unbounded → ∀ d, (c :: rest).head? = some d → ¬opensClassBound d := by
      rintro hunbounded d ⟨⟩
      exact hopens hunbounded
    -- The character that closes `f` ends the list or is the first one of the next name.
    by_cases hend : c = '>'
    · subst hend
      exact .inl ⟨f, [], rest, ⟨by simpa using hf, .singleton f⟩, by simp⟩
    have hshorter : (c :: rest).length < (f.spelling ++ c :: rest).length := by
      simp [Formal.spelling]
      omega
    rw [run_formal hf offset hnext, run_moreBounds_name hcolon hend]
    rcases formals_or_breaksOff (c :: rest) (offset + width f.spelling)
      with ⟨g, gs, rest', hgs, hcs⟩ | ⟨gs, hgs⟩
    · have hprecedes : f.Precedes g := by
        intro d hd
        obtain ⟨tail, htail⟩ := List.head?_eq_some_iff.1 hd
        simp only [List.flatMap_cons, Formal.spelling, htail, List.cons_append,
          List.cons.injEq] at hcs
        obtain ⟨rfl, -⟩ := hcs
        exact ⟨hend, hopens⟩
      refine .inl ⟨f, g :: gs, rest', ⟨?_, hgs.chain.cons_cons hprecedes⟩, by simp [hcs]⟩
      rintro h (_ | ⟨_, hh⟩)
      · exact hf
      · exact hgs.all h hh
    · exact .inr ⟨f :: gs, hgs.after _⟩
  · exact .inr ⟨[f], by simpa using hf⟩
termination_by cs.length

/-- The superclass and the interfaces of a class. -/
theorem supertypes_or_breaksOff (cs : List Char) (offset : Nat) :
    (∃ (superclass : TypeTree) (interfaces : List TypeTree), superclass.WellFormed 0 ∧
        (∀ t ∈ interfaces, t.WellFormed 0) ∧
        cs = superclass.spelling ++ interfaces.flatMap TypeTree.spelling) ∨
      ∃ (superclass : TypeTree) (interfaces : List TypeTree),
        (run (.type rootPlace ⟨.supertype, []⟩) offset cs).BreaksOff
          (superclass.deliveries 1 ++ interfaces.flatMap (announced .interface)) := by
  rcases rootType_or_breaksOff .supertype cs offset with ⟨t, rest, ht, rfl⟩ | ⟨t, ht⟩
  · rw [run_rootType ht]
    rcases all_or_breaksOff lists_interfaces rest (offset + width t.spelling)
      with ⟨ts, rest, hts, rfl, rfl⟩ | ⟨ts, hts⟩
    · exact .inl ⟨t, ts, ht, hts, by simp⟩
    · exact .inr ⟨t, ts, hts.after _⟩
  · exact .inr ⟨t, [], ht.append _⟩

/-- The result and the exceptions of a method. -/
theorem outcome_or_breaksOff (cs : List Char) (offset : Nat) :
    (∃ (result : TypeTree) (exceptions : List TypeTree), result.WellFormed 0 ∧
        (∀ t ∈ exceptions, t.WellFormed 0) ∧
        cs = result.spelling ++ exceptions.flatMap fun t => '^' :: t.spelling) ∨
      ∃ (result : TypeTree) (exceptions : List TypeTree),
        (run (.type rootPlace ⟨.result, []⟩) offset cs).BreaksOff
          (result.deliveries 1 ++ exceptions.flatMap (announced .exception)) := by
  rcases rootType_or_breaksOff .result cs offset with ⟨t, rest, ht, rfl⟩ | ⟨t, ht⟩
  · rw [run_rootType ht]
    rcases all_or_breaksOff lists_exceptions rest (offset + width t.spelling)
      with ⟨ts, rest, hts, rfl, rfl⟩ | ⟨ts, hts⟩
    · exact .inl ⟨t, ts, ht, hts, by simp⟩
    · exact .inr ⟨t, ts, hts.after _⟩
  · exact .inr ⟨t, [], ht.append _⟩

/-- What follows the formal type parameters `fs` makes them a class or a method signature. -/
theorem body_or_breaksOff {fs : List Formal} (hfs : FormalsWellFormed fs) (cs : List Char)
    (offset : Nat) :
    (∃ d : Document, d.WellFormed ∧ d.kind ≠ .ofType ∧ d.spelling = formalsSpelling fs ++ cs) ∨
      ∃ d : Document, d.kind ≠ .ofType ∧
        ((run .body offset cs).after (fs.flatMap Formal.deliveries)).BreaksOff d.deliveries := by
  match cs with
  | [] =>
    refine .inr ⟨.ofClass ⟨fs, .base 'V', []⟩, by simp [Document.kind], ?_⟩
    exact ((BreaksOff.of_fault ..).after _).append _
  | c :: cs =>
    by_cases hc : c = '('
    · have hrun : run .body offset (c :: cs) = run .parameters (offset + c.utf8Size) cs := by
        rw [run_cons, State.step, openBody, if_pos hc, proceed_go]
      rw [hrun]
      rcases all_or_breaksOff lists_parameters cs (offset + c.utf8Size)
        with ⟨ps, rest, hps, ⟨tail, rfl⟩, rfl⟩ | ⟨ps, hps⟩
      · simp only [List.nil_append, run_parameters hps]
        rw [run_cons, State.step, if_pos rfl, proceed_after, proceed_expectType (Nat.zero_le _)]
        rcases outcome_or_breaksOff tail _ with ⟨result, es, hresult, hes, rfl⟩ | ⟨result, es, h⟩
        · exact .inl ⟨.ofMethod ⟨fs, ps, result, es⟩, ⟨hfs, hps, hresult, hes⟩,
            by simp [Document.kind], by
              simp [hc, Document.spelling, MethodTree.spelling, MethodTree.ending]⟩
        · refine .inr ⟨.ofMethod ⟨fs, ps, result, es⟩, by simp [Document.kind], ?_⟩
          simp only [Document.deliveries, MethodTree.deliveries, List.append_assoc]
          exact ((h.after _).after _).after _
      · refine .inr ⟨.ofMethod ⟨fs, ps, .base 'V', []⟩, by simp [Document.kind], ?_⟩
        simp only [Document.deliveries, MethodTree.deliveries, List.append_assoc]
        exact (hps.append _).after _
    · have hrun : run .body offset (c :: cs) =
          (run (.type rootPlace ⟨.supertype, []⟩) offset (c :: cs)).after [⟨0, .superclass⟩] := by
        rw [run_cons, State.step, openBody, if_neg hc, proceed_after,
          proceed_beginType (Nat.zero_le _)]
      rw [hrun]
      rcases supertypes_or_breaksOff (c :: cs) offset
        with ⟨superclass, is, hsuper, his, hcs⟩ | ⟨superclass, is, h⟩
      · exact .inl ⟨.ofClass ⟨fs, superclass, is⟩, ⟨hfs, hsuper, his⟩, by simp [Document.kind], by
          simp [hcs, Document.spelling, ClassTree.spelling]⟩
      · refine .inr ⟨.ofClass ⟨fs, superclass, is⟩, by simp [Document.kind], ?_⟩
        simp only [Document.deliveries, ClassTree.deliveries, List.append_assoc]
        exact (h.after _).after _

theorem ofDeclaration_or_breaksOff (text : String) :
    (∃ d : Document, d.WellFormed ∧ d.kind ≠ .ofType ∧ d.text = text) ∨
      ∃ d : Document, d.kind ≠ .ofType ∧ (ofDeclaration text).BreaksOff d.deliveries := by
  have hnone : FormalsWellFormed [] := ⟨by simp, .nil⟩
  by_cases hopen : text.toList.head? = some '<'
  · obtain ⟨cs, hcs⟩ := List.head?_eq_some_iff.1 hopen
    have hrun : ofDeclaration text = run (.formalName 1 []) 1 cs := by
      rw [ofDeclaration, hcs, run_cons, State.step, if_pos rfl, proceed_go]
      rfl
    rcases formals_or_breaksOff cs 1 with ⟨f, fs, rest, hfs, hrest⟩ | ⟨fs, hfs⟩
    · rw [hrun, hrest, run_formals hfs]
      rcases body_or_breaksOff hfs rest _ with ⟨d, hd, hkind, hspelling⟩ | h
      · refine .inl ⟨d, hd, hkind, ?_⟩
        rw [d.text_eq, hspelling, ← String.ofList_toList (s := text), hcs, hrest]
        simp [formalsSpelling]
      · exact .inr h
    · refine .inr ⟨.ofClass ⟨fs, .base 'V', []⟩, by simp [Document.kind], ?_⟩
      rw [hrun]
      simp only [Document.deliveries, ClassTree.deliveries, List.append_assoc]
      exact hfs.append _
  · have hrun : ofDeclaration text = run .body 0 text.toList := by
      simpa [ofDeclaration, formalsSpelling] using run_start hnone hopen
    rcases body_or_breaksOff hnone text.toList 0 with ⟨d, hd, hkind, hspelling⟩ | ⟨d, hkind, h⟩
    · refine .inl ⟨d, hd, hkind, ?_⟩
      rw [d.text_eq, hspelling]
      simp [formalsSpelling]
    · exact .inr ⟨d, hkind, by rw [hrun]; simpa using h⟩

theorem ofType_or_breaksOff (text : String) :
    (∃ t : TypeTree, t.WellFormed 0 ∧ (Document.ofType t).text = text) ∨
      ∃ t : TypeTree, (ofType text).BreaksOff (t.deliveries 0) := by
  have hawaits : Awaits ⟨.whole, []⟩ (.type ⟨0, 0⟩ ⟨.whole, []⟩) ⟨0, 0⟩ 0 := .type (Nat.zero_le _)
  rcases type_or_breaksOff text.toList 0 hawaits (Nat.zero_le _)
    with ⟨t, rest, ht, hdims, hcs⟩ | h
  · cases rest with
    | nil =>
      refine .inl ⟨t, ht, ?_⟩
      rw [Document.text_eq, Document.spelling, ← String.ofList_toList (s := text), hcs,
        List.append_nil]
    | cons c rest =>
      refine .inr ⟨t, ?_⟩
      rw [ofType, hcs, run_type hawaits _ _ t ht hdims]
      rw [Context.after, run_cons, State.step, proceed_fail]
      exact ⟨by simp, by simp⟩
  · exact .inr h

/-- Every text is the text of a well-formed signature, or the reading of it breaks off inside of a
signature. -/
theorem ofKind_or_breaksOff (kind : Kind) (text : String) :
    (∃ d : Document, d.WellFormed ∧ (d.kind = .ofType ↔ kind = .ofType) ∧ d.text = text) ∨
      ∃ d : Document, (d.kind = .ofType ↔ kind = .ofType) ∧
        (ofKind kind text).BreaksOff d.deliveries := by
  cases kind with
  | ofType =>
    rcases ofType_or_breaksOff text with ⟨t, ht, htext⟩ | ⟨t, h⟩
    · exact .inl ⟨.ofType t, ht, by simp [Document.kind], htext⟩
    · exact .inr ⟨.ofType t, by simp [Document.kind], h⟩
  | ofClass | ofMethod =>
    rcases ofDeclaration_or_breaksOff text with ⟨d, hd, hkind, htext⟩ | ⟨d, hkind, h⟩
    · exact .inl ⟨d, hd, by simp [hkind], htext⟩
    · exact .inr ⟨d, by simp [hkind], h⟩

end Reading

end ClassUnit.Signature
