import ClassUnit.Proofs.Field.Session
import ClassUnit.Proofs.Signature.Offsets
import ClassUnit.Proofs.Signature.Recognition

/-! # Scanning follows reading

A scanner of bytes and a reader of characters do the same. The scanner is a recursion over the
productions, the reader steps from state to state; so each production is said to follow a reading
from the state in which it begins, and to leave what is read from the state behind it
(`Scanner.Follows`, `Scanner.Resumes`). Bytes are looked at only where a character begins, but for
the inside of a class name, which a scanner passes over byte by byte (`Scanner.follows_skip`).

On the whole (`Scanner.exec_ofKind`), no text makes the scanner go astray, and every fault lies at a
position in the text. -/

namespace ClassUnit.Signature
open Reader Reading

namespace Scanner

variable {text : String}

/-! ## Following a reading -/

/-- The scan does what the reading does: either it goes on after the same deliveries, and `post`
says what is left of the reading; or it refuses the text for the fault of the reading. -/
def Follows (text : String) (x : Scan α) (r : Reading) (post : α → Reading → Prop) : Prop :=
  ∀ log, ∃ ds,
    (∃ a rest, x.exec log = (.ok a, log ++ ds) ∧ r = rest.after ds ∧ post a rest) ∨
      ∃ fault, x.exec log = (.error (.refused (.invalidSignature fault)), log ++ ds) ∧
        r = ⟨ds, some fault⟩ ∧ fault.LiesIn text

namespace Follows

variable {post : α → Reading → Prop} {post' : β → Reading → Prop}

theorem pure (h : post a r) : Follows text (pure a) r post := by
  intro log
  exact ⟨[], .inl ⟨a, r, by simp, rfl, h⟩⟩

theorem refuse (h : Fault.LiesIn ⟨offset, reason⟩ text) :
    Follows text (refuse offset reason) ⟨[], some ⟨offset, reason⟩⟩ post := by
  intro log
  exact ⟨[], .inr ⟨⟨offset, reason⟩, by rw [List.append_nil]; rfl, rfl, h⟩⟩

theorem bind {x : Scan α} {f : α → Scan β} (h : Follows text x r post)
    (hf : ∀ a r', post a r' → Follows text (f a) r' post') : Follows text (x >>= f) r post' := by
  intro log
  obtain ⟨ds, ⟨a, rest, hx, rfl, hpost⟩ | ⟨fault, hx, rfl, hfault⟩⟩ := h log
  · rw [Run.exec_bind_of_ok hx]
    obtain ⟨es, ⟨b, rest', hb, rfl, hpost'⟩ | ⟨fault, hb, rfl, hfault⟩⟩ :=
      hf a rest hpost (log ++ ds)
    · exact ⟨ds ++ es, .inl ⟨b, rest', by rw [hb, List.append_assoc], after_after .., hpost'⟩⟩
    · exact ⟨ds ++ es, .inr ⟨fault, by rw [hb, List.append_assoc], rfl, hfault⟩⟩
  · exact ⟨ds, .inr ⟨fault, Run.exec_bind_of_error hx, rfl, hfault⟩⟩

theorem bind_pure {x : Scan α} {f : α → β} (h : Follows text x r post)
    (hf : ∀ a r', post a r' → post' (f a) r') :
    Follows text (x >>= fun a => Pure.pure (f a)) r post' :=
  h.bind fun a r' hpost => pure (hf a r' hpost)

theorem refuse_bind {f : α → Scan β} (h : Fault.LiesIn ⟨offset, reason⟩ text) :
    Follows text (Scanner.refuse offset reason >>= f) ⟨[], some ⟨offset, reason⟩⟩ post' := by
  have hnever : Follows text (Scanner.refuse offset reason) ⟨[], some ⟨offset, reason⟩⟩
      fun (_ : α) _ => False := .refuse h
  exact hnever.bind fun _ _ => False.elim

theorem tell_bind {f : Unit → Scan β} (h : Follows text (f ()) r post') :
    Follows text (tell level event >>= f) (r.after [⟨level, event⟩]) post' := by
  have htell : Follows text (tell level event) (r.after [⟨level, event⟩]) fun _ r' => r' = r := by
    intro log
    exact ⟨[⟨level, event⟩], .inl ⟨(), r, rfl, rfl, rfl⟩⟩
  apply htell.bind
  rintro ⟨⟩ _ rfl
  exact h

theorem byteAt_bind {f : {_c : Char // offset < (bytes text).length} → Scan β}
    (h : At text offset (c :: rest))
    (hf : ∀ b hb, Alike b c → Follows text (f ⟨b, hb⟩) r post') :
    Follows text (byteAt text offset >>= f) r post' := by
  obtain ⟨b, hb, hbyte, hc⟩ := exists_byteAt h c.utf8Size_pos
  rw [show byteAt text offset = _ from hbyte, pure_bind]
  exact hf b hb hc

/-- Where a reading looks for a character, a scanner sees one like it or the end of the text. -/
theorem look {f : {_c : Char // offset < (bytes text).length} → Scan β}
    (h : At text offset rest) (hend : s.finish offset = some ⟨offset, .unexpectedEnd⟩)
    (hf : ∀ b hb c tail, rest = c :: tail → Alike b c →
      Follows text (f ⟨b, hb⟩) (run s offset (c :: tail)) post') :
    Follows text (byteAt text offset >>= f) (run s offset rest) post' := by
  cases rest with
  | nil =>
    rw [byteAt_end h, run_nil, hend]
    exact refuse_bind h.liesIn
  | cons c tail => exact byteAt_bind h fun b hb hc => hf b hb c tail rfl hc

end Follows

/-- The scan has come to an offset from which the reading goes on in a state. -/
def Resumes (text : String) (s : State) (stop : Nat) (r : Reading) : Prop :=
  ∃ rest, At text stop rest ∧ r = run s stop rest

/-! ## Types -/

/-- Where the first character of a type announces it, the type is read behind the announcement. -/
theorem proceed_beginType_eq (offset : Nat) (place : Place) (context : Context) (c : Char)
    (rest : List Char) :
    proceed (beginType offset place context c) (offset + c.utf8Size) rest =
      proceed (expectType offset place context) offset (c :: rest) := by
  rcases Nat.lt_or_ge maxNesting place.depth with hdeep | hdepth
  · simp [beginType, expectType, hdeep]
  · rw [proceed_beginType hdepth, proceed_expectType hdepth]

theorem ascii_of_isBaseCode {c : Char} (h : isBaseCode c) : c.toNat < 128 := by
  simp only [isBaseCode, List.contains_eq_mem, List.mem_cons, List.not_mem_nil, or_false,
    decide_eq_true_eq] at h
  rcases h with rfl | rfl | rfl | rfl | rfl | rfl | rfl | rfl | rfl <;> decide

theorem Alike.isBaseCode_eq (h : Alike b c) : isBaseCode b = isBaseCode c := by
  rw [Alike] at h
  simp [isBaseCode, h]

/-- No argument is refused for its tag, since a tag is that of a variance. -/
theorem of_ofTag (h : c = variance.tag) :
    (Run.of ((Variance.ofTag c).mapError .refused) : Scan Variance) = pure variance := by
  subst h
  cases variance <;> rfl

/-- States in which a name is read that begins at `start` and goes on up to `d`. -/
structure ReadsName (S : List Char → State) (start : Nat) (d : Char) (event : String → Delivery)
    (next : State) : Prop where
  keeps : ∀ offset c acc, c ≠ d → (S acc).step offset c = .go (S (c :: acc))
  empty : ∀ offset, (S []).step offset d = .fail start .emptyName
  ends : ∀ offset acc, acc ≠ [] →
    (S acc).step offset d = .after (event (String.ofList acc.reverse)) (.go next)
  unfinished : ∀ offset acc, (S acc).finish offset = some ⟨start, .missing d⟩

theorem readsName_variable (level start : Nat) (context : Context) :
    ReadsName (fun acc => .variableName level start acc context) start ';'
      (fun name => ⟨level, .typeVariable name⟩) context.after where
  keeps _ _ _ hc := by simp [State.step, hc]
  empty _ := rfl
  ends _ _ hacc := by simp [State.step, hacc]
  unfinished _ _ := rfl

theorem readsName_formal (start : Nat) :
    ReadsName (fun acc => .formalName start acc) start ':' (fun name => ⟨0, .formal name⟩)
      .formalBounds where
  keeps _ _ _ hc := by simp [State.step, hc]
  empty _ := rfl
  ends _ _ hacc := by simp [State.step, hacc]
  unfinished _ _ := rfl

theorem follows_delimited (hreads : ReadsName S start d event next) (h : At text start cs)
    (hd : d.toNat < 128 := by decide) :
    Follows text (delimited text start d) (run (S []) start cs) fun found r =>
      ∃ rest, At text found.2 rest ∧ r = (run next found.2 rest).after [event found.1] := by
  obtain ⟨inside, rest, rfl, hname, hrest⟩ := exists_name (· = d) cs
  have hinside : ∀ c ∈ inside, c ≠ d := by simpa using hname
  have hrun : run (S []) start (inside ++ rest) =
      run (S (inside.reverse ++ [])) (start + width inside) rest :=
    run_name S (· = d) (fun offset c acc hc => hreads.keeps offset c acc (by simpa using hc)) hname
  rw [delimited, hrun, List.append_nil]
  rcases hrest with rfl | ⟨c, rest, rfl, hc⟩
  · rw [find_end h hd (by simpa using hinside), run_nil,
      hreads.unfinished]
    exact .refuse_bind h.liesIn
  obtain rfl : c = d := by simpa using hc
  obtain ⟨hstop, hfind⟩ := exists_find h hd hinside
  rw [hfind, pure_bind, run_cons]
  by_cases hempty : inside = []
  · subst hempty
    dsimp only
    rw [name_empty (by simp), List.reverse_nil, hreads.empty, proceed_fail]
    exact .refuse_bind h.liesIn
  · have hreverse : inside.reverse ≠ [] := by simpa using hempty
    dsimp only
    rw [name_eq h hempty, pure_bind, hreads.ends _ _ hreverse, List.reverse_reverse, proceed_after,
      proceed_go]
    refine .pure ⟨rest, h.drop.next_ascii hd, ?_⟩
    rw [utf8Size_eq_one hd]

/-- The name of a segment is announced, unless it is empty. -/
theorem follows_announce {k : Unit → Scan α} {step : Step} {inner : Bool}
    (h : At text start (inside ++ rest))
    (hk : inside ≠ [] → Follows text (k ()) (proceed step offset tail) post) :
    Follows text (announce text place inner start (start + width inside) >>= k)
      (proceed (endSegment inner place start inside.reverse step) offset tail) post := by
  by_cases hempty : inside = []
  · subst hempty
    rw [announce, name_empty (by simp), bind_assoc]
    exact .refuse_bind h.liesIn
  · have hopen : inside.reverse.isEmpty = false := by simpa using hempty
    rw [announce, name_eq h hempty, pure_bind, endSegment, hopen, List.reverse_reverse,
      if_neg Bool.false_ne_true, proceed_after]
    exact .tell_bind (hk hempty)

/-- A scanner passes over a character that does not end a segment, byte by byte. -/
theorem follows_skip {post : Nat → Reading → Prop} {inner : Bool} (h : At text offset (c :: rest))
    (hdot : c ≠ '.') (hend : c ≠ ';') (hopen : c ≠ '<')
    (hnext : Follows text (segments text place inner visited start (offset + c.utf8Size)) r
      fun stop => post stop) :
    Follows text (segments text place inner visited start offset) r fun stop => post stop := by
  -- The induction is on the number of bytes of the character that are still ahead.
  have hstep : ∀ i ≤ c.utf8Size,
      Follows text (segments text place inner visited start (offset + (c.utf8Size - i))) r
        fun stop => post stop := by
    intro i
    induction i with
    | zero =>
      intro _
      exact hnext
    | succ i ih =>
      intro hi
      have hoffset : offset + (c.utf8Size - (i + 1)) + 1 = offset + (c.utf8Size - i) := by omega
      have hrest : Follows text
          (segments text place inner visited start (offset + (c.utf8Size - (i + 1)) + 1)) r
          fun stop => post stop := by
        rw [hoffset]
        exact ih (by omega)
      obtain ⟨b, hb, hbyte, hc⟩ := exists_byteAt h (show c.utf8Size - (i + 1) < c.utf8Size by omega)
      rw [segments, hbyte, pure_bind]
      simp only [hc.eq_iff '.', hc.eq_iff ';', hc.eq_iff '<', hdot, hend, hopen, if_false]
      exact hrest.bind_pure fun _ _ hr => hr
  have hall := hstep c.utf8Size (Nat.le_refl _)
  rwa [Nat.sub_self, Nat.add_zero] at hall

mutual

/-- The recursion is that of the scanner. It goes by what is left of the text and, where productions
begin at one offset, by which of them contains the other. -/
theorem follows_type (place : Place) (context : Context) (h : At text start rest) :
    Follows text (type text place start) (proceed (expectType start place context) start rest)
      fun stop => Resumes text context.after stop := by
  rw [type]
  rcases Nat.lt_or_ge maxNesting place.depth with hdeep | hdepth
  · rw [if_pos hdeep, expectType, if_pos hdeep, proceed_fail]
    exact .refuse h.liesIn
  rw [if_neg (Nat.not_lt.2 hdepth), proceed_expectType hdepth]
  refine .look h rfl ?_
  rintro b hb c rest rfl hc
  rw [run_cons]
  simp only [hc.isBaseCode_eq, hc.eq_iff '[', hc.eq_iff 'T', hc.eq_iff 'L']
  by_cases hcode : isBaseCode c
  · have hascii := ascii_of_isBaseCode hcode
    obtain rfl : b = c := (hc.eq_iff c hascii).2 rfl
    have harray : b ≠ '[' := ne_of_class hcode rfl
    have hvariable : b ≠ 'T' := ne_of_class hcode rfl
    have hclass : b ≠ 'L' := ne_of_class hcode rfl
    have hstep : (State.type place context).step start b =
        .after ⟨place.level, .base b⟩ (.go context.after) := by
      simp [State.step, openType, harray, hvariable, hclass, hcode]
    rw [if_pos hcode, hstep, proceed_after, proceed_go, utf8Size_eq_one hascii]
    exact .tell_bind (.pure ⟨rest, h.next_ascii hascii, rfl⟩)
  rw [if_neg hcode]
  by_cases harray : c = '['
  · subst harray
    have helements := follows_array ⟨place.level + 1, place.depth⟩ 1 context h
    rw [if_neg (by decide), proceed_go] at helements
    exact .tell_bind helements
  rw [if_neg harray]
  by_cases hvariable : c = 'T'
  · subst hvariable
    have hreads := readsName_variable place.level (start + 1) context
    refine (follows_delimited hreads h.next_ascii).bind ?_
    rintro ⟨name, stop, _⟩ _ ⟨rest, hrest, rfl⟩
    exact .tell_bind (.pure ⟨rest, hrest, rfl⟩)
  rw [if_neg hvariable]
  by_cases hclass : c = 'L'
  · subst hclass
    have hsegments := follows_segments [] place false context h.next_ascii
    exact hsegments.bind_pure fun _ _ hr => hr
  have hstep : (State.type place context).step start c =
      .fail start (.unexpectedCharacter c) := by
    simp [State.step, openType, harray, hvariable, hclass, hcode]
  rw [if_neg hclass, charAt_eq h, hstep, proceed_fail]
  exact .refuse h.liesIn
termination_by 4 * ((bytes text).length - start) + 1

theorem follows_array (place : Place) (dimensions : Nat) (context : Context)
    (h : At text bracket ('[' :: rest)) :
    Follows text (array text place dimensions bracket)
      (proceed (if maxDimensions < dimensions then .fail bracket .tooManyDimensions
        else .go (.element place dimensions context)) (bracket + 1) rest)
      fun stop => Resumes text context.after stop := by
  rw [array]
  by_cases hdimensions : maxDimensions < dimensions
  · rw [if_pos hdimensions, if_pos hdimensions, proceed_fail]
    exact .refuse h.liesIn
  rw [if_neg hdimensions, if_neg hdimensions, proceed_go]
  have hnext := h.next_ascii
  refine .look hnext rfl ?_
  rintro b hb c rest rfl hc
  rw [run_cons]
  simp only [hc.eq_iff '[']
  by_cases hbracket : c = '['
  · subst hbracket
    rw [if_pos rfl, State.step, if_pos rfl, proceed_after]
    have helements := follows_array place.inside (dimensions + 1) context hnext
    exact .tell_bind (helements.bind_pure fun _ _ hr => hr)
  · rw [if_neg hbracket, State.step, if_neg hbracket, proceed_beginType_eq]
    have htype := follows_type ⟨place.level, place.depth + 1⟩ context hnext
    exact htype.bind_pure fun _ _ hr => hr
termination_by 4 * ((bytes text).length - bracket)

theorem follows_segments (inside : List Char) (place : Place) (inner : Bool) (context : Context)
    (h : At text start (inside ++ rest)) :
    Follows text (segments text place inner false start (start + width inside))
      (run (.segmentName inner place start inside.reverse context) (start + width inside) rest)
      fun stop => Resumes text context.after stop := by
  have hat := h.drop
  match rest with
  | [] =>
    rw [segments, byteAt_end hat, run_nil]
    exact .refuse_bind hat.liesIn
  | c :: rest =>
    have hsize := hat.lt_length
    by_cases hname : c ≠ '.' ∧ c ≠ ';' ∧ c ≠ '<'
    -- The name goes on: it is scanned on with one more character inside.
    · obtain ⟨hdot, hend, hopen⟩ := hname
      have hlonger : At text start ((inside ++ [c]) ++ rest) := by simpa using h
      have hwidth : start + width (inside ++ [c]) = start + width inside + c.utf8Size := by
        simp [Nat.add_assoc]
      have hpos := c.utf8Size_pos
      have hsegments := follows_segments (inside ++ [c]) place inner context hlonger
      rw [hwidth, List.reverse_append] at hsegments
      have hstep : (State.segmentName inner place start inside.reverse context).step
          (start + width inside) c =
            .go (.segmentName inner place start (c :: inside.reverse) context) := by
        simp [State.step, hdot, hend, hopen]
      rw [run_cons, hstep, proceed_go]
      exact follows_skip hat hdot hend hopen hsegments
    rw [segments, run_cons]
    refine .byteAt_bind hat ?_
    intro b hb hc
    simp only [hc.eq_iff '.', hc.eq_iff ';', hc.eq_iff '<']
    by_cases hdot : c = '.'
    · subst hdot
      have hsegments := follows_segments [] place true context hat.next_ascii
      exact follows_announce h fun _ => hsegments.bind_pure fun _ _ hr => hr
    by_cases hend : c = ';'
    · subst hend
      exact follows_announce h fun _ => .tell_bind (.pure ⟨rest, hat.next_ascii, rfl⟩)
    have hopen : c = '<' := by
      by_contra hopen
      exact hname ⟨hdot, hend, hopen⟩
    subst hopen
    have harguments := follows_arguments place context hat.next_ascii
    refine follows_announce h fun _ => harguments.bind ?_
    rintro ⟨next, hnext⟩ _ ⟨rest, hrest, rfl⟩
    refine .look hrest rfl ?_
    rintro b hb d rest rfl hd
    simp only [hd.eq_iff '.', hd.eq_iff ';']
    by_cases hends : d = '.' ∨ d = ';'
    · rw [if_pos hends]
      have hsegments := follows_visited place inner start context hrest hends
      exact hsegments.bind_pure fun _ _ hr => hr
    · have hstep : (State.argumentsEnd place context).step next d =
          .fail next .openArguments := by
        rw [not_or] at hends
        simp [State.step, hends]
      rw [if_neg hends, run_cons, hstep, proceed_fail]
      exact .refuse hrest.liesIn
termination_by 4 * ((bytes text).length - (start + width inside))

/-- Behind an argument list, the name of the segment has been announced. -/
theorem follows_visited (place : Place) (inner : Bool) (start : Nat) (context : Context)
    (h : At text offset (c :: rest)) (hends : c = '.' ∨ c = ';') :
    Follows text (segments text place inner true start offset)
      (run (.argumentsEnd place context) offset (c :: rest))
      fun stop => Resumes text context.after stop := by
  rw [segments, run_cons]
  refine .byteAt_bind h ?_
  intro b hb hc
  simp only [hc.eq_iff '.', hc.eq_iff ';', hc.eq_iff '<']
  rcases hends with rfl | rfl
  · have hsegments := follows_segments [] place true context h.next_ascii
    exact hsegments.bind_pure fun _ _ hr => hr
  · exact .tell_bind (.pure ⟨rest, h.next_ascii, rfl⟩)
termination_by 4 * ((bytes text).length - offset)

theorem follows_arguments (place : Place) (context : Context) (h : At text start rest) :
    Follows text (arguments text place start) (run (.arguments place true context) start rest)
      fun stop => Resumes text (.argumentsEnd place context) stop := by
  rw [arguments]
  refine .look h rfl ?_
  rintro b hb c rest rfl hc
  simp only [hc.eq_iff '>']
  by_cases hend : c = '>'
  · subst hend
    exact .refuse h.liesIn
  · rw [if_neg hend]
    exact follows_moreArguments place true context h (by simpa using hend)
termination_by 4 * ((bytes text).length - start) + 3

theorem follows_moreArguments (place : Place) (fresh : Bool) (context : Context)
    (h : At text start rest) (hfresh : fresh → rest.head? ≠ some '>') :
    Follows text (moreArguments text place start)
      (run (.arguments place fresh context) start rest)
      fun stop => Resumes text (.argumentsEnd place context) stop := by
  rw [moreArguments]
  refine .look h rfl ?_
  rintro b hb c rest rfl hc
  rw [run_cons]
  simp only [hc.eq_iff '>', hc.eq_iff '*', hc.eq_iff '=', hc.eq_iff '+', hc.eq_iff '-']
  -- However it is marked, a bounded argument goes on with a type and the rest of the list.
  have hbound : ∀ offset rest', At text offset rest' → (hle : start ≤ offset) →
      Follows text
        (do
          let ⟨next, _⟩ ← type text place.inside offset
          let ⟨stop, _⟩ ← moreArguments text place next
          return (⟨stop, by omega⟩ : Past start))
        (proceed (expectType offset place.inside (context.within place)) offset rest')
        fun stop => Resumes text (.argumentsEnd place context) stop := by
    intro offset rest' hat hle
    refine (follows_type place.inside (context.within place) hat).bind ?_
    rintro ⟨next, hlt⟩ _ ⟨tail, htail, rfl⟩
    have hmore := follows_moreArguments place false context htail (by simp)
    exact hmore.bind_pure fun _ _ hr => hr
  by_cases hend : c = '>'
  · subst hend
    obtain rfl : fresh = false := by simpa using hfresh
    exact .pure ⟨rest, h.next_ascii, rfl⟩
  rw [if_neg hend]
  by_cases hstar : c = '*'
  · subst hstar
    have hmore := follows_moreArguments place false context h.next_ascii (by simp)
    exact .tell_bind (hmore.bind_pure fun _ _ hr => hr)
  rw [if_neg hstar]
  by_cases htagged : c = '='
  · subst htagged
    have hstep : (State.arguments place fresh context).step start '=' =
        .after ⟨place.level, .tagged⟩
          (expectType (start + 1) place.inside (context.within place)) := rfl
    rw [if_pos rfl, hstep, proceed_after]
    exact .tell_bind (hbound _ _ h.next_ascii (by omega))
  rw [if_neg htagged]
  by_cases hmark : c = '+' ∨ c = '-'
  · obtain ⟨variance, htag, hstep⟩ : ∃ variance : Variance, c = variance.tag ∧
        (State.arguments place fresh context).step start c =
          .after ⟨place.level, .argument variance⟩
            (expectType (start + 1) place.inside (context.within place)) := by
      rcases hmark with rfl | rfl
      · exact ⟨.extending, rfl, rfl⟩
      · exact ⟨.superOf, rfl, rfl⟩
    have hascii : c.toNat < 128 := by rcases hmark with rfl | rfl <;> decide
    have hb : b = variance.tag := ((hc.eq_iff c hascii).2 rfl).trans htag
    rw [if_pos hmark, of_ofTag hb, pure_bind, hstep, proceed_after, utf8Size_eq_one hascii]
    exact .tell_bind (hbound _ _ (h.next_ascii hascii) (by omega))
  · have hstep : (State.arguments place fresh context).step start c =
        .after ⟨place.level, .argument .exact⟩
          (beginType start place.inside (context.within place) c) := by
      simp only [not_or] at hmark
      simp [State.step, hend, hstar, htagged, hmark]
    rw [if_neg hmark, hstep, proceed_after, proceed_beginType_eq]
    exact .tell_bind (hbound _ _ h (Nat.le_refl _))
termination_by 4 * ((bytes text).length - start) + 2

end

/-! ## Signatures -/

/-- A type that the root listener announces. -/
theorem follows_rootType (slot : Slot) (h : At text start rest) :
    Follows text (type text rootPlace start)
      (proceed (expectType start rootPlace ⟨slot, []⟩) start rest)
      fun stop => Resumes text (Context.after ⟨slot, []⟩) stop :=
  follows_type rootPlace ⟨slot, []⟩ h

theorem follows_classBound (h : At text start rest) :
    Follows text (classBound text start) (run .formalBounds start rest)
      fun stop => Resumes text .moreBounds stop := by
  rw [classBound]
  refine .look h rfl ?_
  rintro b hb c rest rfl hc
  simp only [hc.eq_iff 'L', hc.eq_iff '[', hc.eq_iff 'T']
  by_cases hbound : c = 'L' ∨ c = '[' ∨ c = 'T'
  · rw [if_pos hbound, run_cons, State.step, if_pos hbound, proceed_after, proceed_beginType_eq]
    exact .tell_bind ((follows_rootType .bound h).bind_pure fun _ _ hr => hr)
  · have hrun : run .formalBounds start (c :: rest) = run .moreBounds start (c :: rest) := by
      rw [run_cons, run_cons, State.step, if_neg hbound]
      rfl
    rw [if_neg hbound, hrun]
    exact .pure ⟨c :: rest, h, rfl⟩

theorem follows_interfaceBounds (h : At text start rest) :
    Follows text (interfaceBounds text start) (run .moreBounds start rest) fun stop r =>
      ∃ c rest, At text stop (c :: rest) ∧ c ≠ ':' ∧ r = run .moreBounds stop (c :: rest) := by
  rw [interfaceBounds]
  refine .look h rfl ?_
  rintro b hb c rest rfl hc
  simp only [hc.eq_iff ':']
  by_cases hcolon : c = ':'
  · subst hcolon
    have htype := follows_rootType .bound h.next_ascii
    rw [if_pos rfl, run_cons, State.step, continueFormals, if_pos rfl, proceed_after]
    refine .tell_bind (htype.bind ?_)
    rintro ⟨next, hnext⟩ _ ⟨rest, hrest, rfl⟩
    exact (follows_interfaceBounds hrest).bind_pure fun _ _ hr => hr
  · rw [if_neg hcolon]
    exact .pure ⟨c, rest, h, hcolon, rfl⟩
termination_by (bytes text).length - start

theorem follows_formals (h : At text start rest) :
    Follows text (formals text start) (run (.formalName start []) start rest)
      (Resumes text .body) := by
  rw [formals]
  refine (follows_delimited (readsName_formal start) h).bind ?_
  rintro ⟨name, bound, hbound⟩ _ ⟨rest, hrest, rfl⟩
  refine .tell_bind ((follows_classBound hrest).bind ?_)
  rintro ⟨bounds, hbounds⟩ _ ⟨rest, hrest, rfl⟩
  refine (follows_interfaceBounds hrest).bind ?_
  rintro ⟨stop, hstop⟩ _ ⟨c, rest, hrest, hcolon, rfl⟩
  have hlt : start < stop := Nat.lt_of_lt_of_le hbound (Nat.le_trans hbounds hstop)
  have hsize : stop < (bytes text).length := hrest.lt_length
  refine .byteAt_bind hrest ?_
  intro b hb hc
  simp only [hc.eq_iff '>']
  by_cases hend : c = '>'
  · subst hend
    exact .pure ⟨rest, hrest.next_ascii, rfl⟩
  · rw [if_neg hend, run_moreBounds_name hcolon hend]
    exact follows_formals hrest
termination_by (bytes text).length - start

theorem follows_parameters (h : At text start rest) :
    Follows text (parameters text start) (run .parameters start rest) fun stop r =>
      ∃ rest, At text stop (')' :: rest) ∧ r = run .parameters stop (')' :: rest) := by
  rw [parameters]
  refine .look h rfl ?_
  rintro b hb c rest rfl hc
  simp only [hc.eq_iff ')']
  by_cases hend : c = ')'
  · subst hend
    exact .pure ⟨rest, h, rfl⟩
  · rw [if_neg hend, run_cons, State.step, if_neg hend, proceed_after, proceed_beginType_eq]
    refine .tell_bind ((follows_rootType .parameter h).bind ?_)
    rintro ⟨next, hnext⟩ _ ⟨rest, hrest, rfl⟩
    exact follows_parameters hrest
termination_by (bytes text).length - start

theorem follows_exceptions (h : At text start rest) :
    Follows text (exceptions text start) (run .exceptions start rest)
      fun _ r => r = ⟨[], none⟩ := by
  match rest with
  | [] =>
    have hsize := h.eq_length
    rw [exceptions, if_neg (by omega)]
    exact .pure rfl
  | c :: rest =>
    have hsize := h.lt_length
    rw [exceptions, if_pos hsize, run_cons, State.step]
    refine .byteAt_bind h ?_
    intro b hb hc
    simp only [hc.eq_iff '^']
    by_cases hmark : c = '^'
    · subst hmark
      have htype := follows_rootType .result h.next_ascii
      rw [if_pos rfl, if_pos rfl, proceed_after]
      refine .tell_bind (htype.bind ?_)
      rintro ⟨next, hnext⟩ _ ⟨rest, hrest, rfl⟩
      exact follows_exceptions hrest
    · rw [if_neg hmark, if_neg hmark, proceed_fail]
      exact .refuse h.liesIn
termination_by (bytes text).length - start

theorem follows_interfaces (h : At text start rest) :
    Follows text (interfaces text start) (run .interfaces start rest)
      fun _ r => r = ⟨[], none⟩ := by
  match rest with
  | [] =>
    have hsize := h.eq_length
    rw [interfaces, if_neg (by omega)]
    exact .pure rfl
  | c :: rest =>
    have hsize := h.lt_length
    rw [interfaces, if_pos hsize, run_cons, State.step, proceed_after, proceed_beginType_eq]
    refine .tell_bind ((follows_rootType .supertype h).bind ?_)
    rintro ⟨next, hnext⟩ _ ⟨rest, hrest, rfl⟩
    exact follows_interfaces hrest
termination_by (bytes text).length - start

theorem follows_body (h : At text start rest) :
    Follows text (body text start) (run .body start rest) fun _ r => r = ⟨[], none⟩ := by
  rw [body]
  refine .look h rfl ?_
  rintro b hb c rest rfl hc
  rw [run_cons, State.step, openBody]
  simp only [hc.eq_iff '(']
  by_cases hopen : c = '('
  · subst hopen
    rw [if_pos rfl, if_pos rfl, proceed_go]
    refine (follows_parameters h.next_ascii).bind ?_
    rintro stop _ ⟨rest, hrest, rfl⟩
    have htype := follows_rootType .result hrest.next_ascii
    rw [run_cons, State.step, if_pos rfl, proceed_after]
    refine .tell_bind (htype.bind ?_)
    rintro ⟨next, hnext⟩ _ ⟨rest, hrest, rfl⟩
    exact follows_exceptions hrest
  · rw [if_neg hopen, if_neg hopen, proceed_after, proceed_beginType_eq]
    refine .tell_bind ((follows_rootType .supertype h).bind ?_)
    rintro ⟨next, hnext⟩ _ ⟨rest, hrest, rfl⟩
    exact follows_interfaces hrest

theorem follows_declaration (text : String) :
    Follows text (declaration text) (ofDeclaration text) fun _ r => r = ⟨[], none⟩ := by
  have h := At.start text
  rw [declaration, ofDeclaration]
  refine .look h rfl ?_
  intro b hb c rest htext hc
  rw [htext] at h
  simp only [hc.eq_iff '<']
  by_cases hopen : c = '<'
  · subst hopen
    refine (follows_formals h.next_ascii).bind ?_
    rintro stop _ ⟨rest, hrest, rfl⟩
    exact follows_body hrest
  · have hrun : run .start 0 (c :: rest) = run .body 0 (c :: rest) := by
      rw [run_cons, run_cons, State.step, if_neg hopen]
      rfl
    rw [if_neg hopen, hrun]
    exact follows_body h

theorem follows_bareType (text : String) :
    Follows text (bareType text) (ofType text) fun _ r => r = ⟨[], none⟩ := by
  refine (follows_type ⟨0, 0⟩ ⟨.whole, []⟩ (At.start text)).bind ?_
  rintro ⟨stop, hstop⟩ _ ⟨rest, hrest, rfl⟩
  dsimp only
  cases rest with
  | nil =>
    rw [if_pos hrest.eq_length]
    exact .pure rfl
  | cons c rest =>
    rw [if_neg hrest.lt_length.ne, Context.after, run_cons, State.step, proceed_fail]
    exact .refuse hrest.liesIn

theorem follows_ofKind (kind : Kind) (text : String) :
    Follows text (ofKind kind text) (Reading.ofKind kind text) fun _ r => r = ⟨[], none⟩ := by
  cases kind with
  | ofType => exact follows_bareType text
  | ofClass | ofMethod => exact follows_declaration text

/-- A scanner of bytes never strays. On every text it delivers what a reader of characters delivers,
and it ends well or refuses the text for the same fault. The fault is told at a position in the
text, and what its reason says of that position is so. -/
theorem exec_ofKind (kind : Kind) (text : String) :
    (ofKind kind text).exec [] =
        ((Reading.ofKind kind text).fault.elim (.ok ()) fun fault =>
            .error (.refused (.invalidSignature fault)),
          (Reading.ofKind kind text).deliveries) ∧
      ∀ fault, (Reading.ofKind kind text).fault = some fault →
        fault.offset ≤ text.utf8ByteSize ∧ fault.LiesIn text := by
  obtain ⟨ds, ⟨⟨⟩, _, hexec, hr, rfl⟩ | ⟨fault, hexec, hr, hfault⟩⟩ := follows_ofKind kind text []
  · rw [hexec, hr]
    simp [after]
  · rw [hexec, hr]
    refine ⟨rfl, ?_⟩
    rintro _ ⟨⟩
    exact ⟨hfault.isValid.le_utf8ByteSize, hfault⟩

/-- A letter of two bytes stands before the fault, and one of three bytes at the fault. -/
theorem exec_ofKind_beyond_ascii :
    (Reading.ofKind .ofType "Lé<€").fault = some ⟨4, .unexpectedCharacter '€'⟩ ∧
      (ofKind .ofType "Lé<€").exec [] =
        (.error (.refused (.invalidSignature ⟨4, .unexpectedCharacter '€'⟩)),
          [⟨0, .classType "é"⟩, ⟨0, .argument .exact⟩]) ∧
      4 ≤ "Lé<€".utf8ByteSize ∧ Fault.LiesIn ⟨4, .unexpectedCharacter '€'⟩ "Lé<€" := by
  have hreading : Reading.ofKind .ofType "Lé<€" =
      ⟨[⟨0, .classType "é"⟩, ⟨0, .argument .exact⟩], some ⟨4, .unexpectedCharacter '€'⟩⟩ := rfl
  have hfault := congrArg Reading.fault hreading
  obtain ⟨hexec, hlies⟩ := exec_ofKind .ofType "Lé<€"
  rw [hreading] at hexec
  exact ⟨hfault, hexec, hlies _ hfault⟩

end Scanner

end ClassUnit.Signature
