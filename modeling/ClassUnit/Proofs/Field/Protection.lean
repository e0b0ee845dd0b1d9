import ClassUnit.Proofs.Field.Order

/-! # Guarded lists of observers

A guard closes once the whole list behind it has accepted an end. If an observer refuses an end that
those before it have accepted, the guard stays open, and further requests reach the ones that have
ended already (`not_protected`). This is all that a guard leaves undone: an observer is sent nothing
after an end that it and all those behind it accept (`guarded_list_protected`).

To see what an observer is sent, each of them leaves a receipt for every request that reaches it. -/

namespace ClassUnit

variable {ε σ α : Type}

/-! ## Receipts -/

/-- The positions of the observers that were sent a request, and whether they accepted it. -/
abbrev Receipts := List (Nat × Bool)

/-- The part of a state beside the receipts. -/
def besideReceipts : Part (Receipts × σ) σ where
  get := Prod.snd
  put s t := (t.1, s)

/-- Leaves a receipt with the outcome. -/
def Run.noted (position : Nat) (x : Run ε σ α) : Run ε (Receipts × σ) α :=
  ExceptT.mk fun t =>
    let (result, s) := x.exec t.2
    (result, t.1 ++ [(position, result.isOk)], s)

theorem Run.exec_noted (position : Nat) (x : Run ε σ α) (log : Receipts) (s : σ) :
    (x.noted position).exec (log, s) =
      ((x.exec s).1, log ++ [(position, (x.exec s).1.isOk)], (x.exec s).2) := rfl

theorem Run.forM_besideReceipts (list : List α) (f : α → Run ε σ Unit) :
    (list.forM f).on besideReceipts = list.forM fun a => (f a).on besideReceipts := by
  simp only [List.forM_eq_forM]
  induction list with
  | nil => rfl
  | cons a list ih =>
    rw [List.forM_cons, List.forM_cons, ← ih]
    refine Run.ext fun t => ?_
    simp only [exec_on, exec_bind]
    rcases (f a).exec (besideReceipts.get t) with ⟨_ | _, s⟩ <;> rfl

theorem AnnotationVisitor.collapse_besideReceipts (targets : List (AnnotationVisitor σ)) :
    collapse (targets.map (·.on besideReceipts)) =
      (collapse targets).map (·.on besideReceipts) := by
  match targets with
  | [] | [_] => rfl
  | target :: target' :: targets =>
    simp only [List.map_cons, collapse, Option.map_some, Option.some.injEq]
    simp only [← List.map_cons]
    simp only [fanOut, AnnotationVisitor.on, Run.forM_besideReceipts, mk.injEq]
    constructor
    · funext e
      rw [List.forM_eq_forM, List.forM_map]
      rfl
    · rw [List.forM_eq_forM, List.forM_map]
      rfl

namespace FieldVisitor

/-- Leaves a receipt for every request. -/
def noted (position : Nat) (v : FieldVisitor σ) : FieldVisitor (Receipts × σ) where
  level := v.level
  annotate descriptor visible :=
    Option.map (·.on besideReceipts) <$> (v.annotate descriptor visible).noted position
  annotateType target descriptor visible :=
    Option.map (·.on besideReceipts) <$> (v.annotateType target descriptor visible).noted position
  attach a := (v.attach a).noted position
  finish := v.finish.noted position

/-- The observers of a list, each leaving receipts under its position. -/
def notedFrom (position : Nat) : List (FieldVisitor σ) → List (FieldVisitor (Receipts × σ))
  | [] => []
  | v :: list => v.noted position :: notedFrom (position + 1) list

theorem exec_ask_noted (position : Nat) (v : FieldVisitor σ) (r : Request) (log : Receipts) (s : σ) :
    ((v.noted position).ask r).exec (log, s) =
      (((v.ask r).exec s).1.map (Option.map (·.on besideReceipts)),
        log ++ [(position, ((v.ask r).exec s).1.isOk)], ((v.ask r).exec s).2) := by
  cases r with
  | annotate | annotateType => simp [ask, noted, Run.exec_noted]
  | attach a =>
    simp only [ask, noted, Run.exec_map, Run.exec_noted]
    rcases (v.attach a).exec s with ⟨_ | _, s'⟩ <;> rfl
  | finish =>
    simp only [ask, noted, Run.exec_map, Run.exec_noted]
    rcases v.finish.exec s with ⟨_ | _, s'⟩ <;> rfl

/-- Leaving receipts changes nothing else. If the list refuses a request, then so does one of its
observers, and those that accept it all stand before that one. -/
theorem exec_mapM_notedFrom (list : List (FieldVisitor σ)) (r : Request) (position : Nat)
    (log : Receipts) (s : σ) :
    ∃ receipts : Receipts,
      ((notedFrom position list).mapM (ask · r)).exec (log, s) =
        (((list.mapM (ask · r)).exec s).1.map (List.map (Option.map (·.on besideReceipts))),
          log ++ receipts, ((list.mapM (ask · r)).exec s).2) ∧
      (((list.mapM (ask · r)).exec s).1.isOk = false →
        ∃ i, position ≤ i ∧ (i, false) ∈ receipts ∧ ∀ j, (j, true) ∈ receipts → j < i) := by
  induction list generalizing position log s with
  | nil => exact ⟨[], by simp [notedFrom, Except.map], nofun⟩
  | cons v list ih =>
    simp only [notedFrom, List.mapM_cons, Run.exec_bind, exec_ask_noted]
    rcases h : (v.ask r).exec s with ⟨e | handed, s'⟩
    · refine ⟨[(position, false)], rfl, fun _ => ⟨position, Nat.le_refl _, List.mem_cons_self, ?_⟩⟩
      intro j hj
      simp at hj
    · obtain ⟨receipts, hexec, hrefused⟩ := ih (position + 1) (log ++ [(position, true)]) s'
      refine ⟨(position, true) :: receipts, ?_, fun hresult => ?_⟩
      · have hok : (Except.ok handed : Except Error _).isOk = true := rfl
        simp only [Except.map, hok, hexec]
        rcases (list.mapM (ask · r)).exec s' with ⟨_ | _, s''⟩ <;> simp
      · have hrest : ((list.mapM (ask · r)).exec s').1.isOk = false := by
          rcases hlist : (list.mapM (ask · r)).exec s' with ⟨_ | _, s''⟩
          · rfl
          · simp only [hlist] at hresult
            cases hresult
        obtain ⟨i, hi, hmem, hbefore⟩ := hrefused hrest
        refine ⟨i, by omega, List.mem_cons_of_mem _ hmem, fun j hj => ?_⟩
        rcases List.mem_cons.1 hj with hj | hj
        · cases hj
          omega
        · exact hbefore j hj

/-! ## Sessions that leave receipts -/

/-- The same session, where the observers have left these receipts. -/
def Session.noted (d : Session σ) (log : Receipts) : Session (Receipts × σ) :=
  ⟨(log, d.state), d.atHand.map (·.on besideReceipts)⟩

section
variable (level : Level) (list : List (FieldVisitor σ)) (d : Session σ) (log : Receipts)

/-- A list that leaves receipts is not told from the list itself. If it does not accept an end,
then whoever accepts it has an observer behind it that does not. -/
theorem hear_notedFrom (m : Message) :
    ∃ receipts : Receipts,
      (observers level (notedFrom 0 list)).hear (d.noted log) m =
        (((observers level list).hear d m).1,
          ((observers level list).hear d m).2.noted (log ++ receipts)) ∧
      (m = .field .finish → ¬(observers level list).Closes d m →
        ∀ j, (j, true) ∈ receipts → ∃ i, (i, false) ∈ receipts ∧ j < i) := by
  cases m with
  | field r =>
    by_cases hbarred : r.Barred level
    · refine ⟨[], ?_, fun _ _ j hj => absurd hj List.not_mem_nil⟩
      simp only [hear, ask_observers, if_pos hbarred, Run.exec_of, Session.noted, List.append_nil]
      rfl
    · obtain ⟨receipts, hexec, hrefused⟩ := exec_mapM_notedFrom list r 0 log d.state
      refine ⟨receipts, ?_, fun hm hopen => ?_⟩
      · simp only [hear, ask_observers, if_neg hbarred, Session.noted, Run.exec_map, hexec]
        rcases (list.mapM (ask · r)).exec d.state with ⟨_ | targets, s⟩
        · rfl
        · have htargets : (targets.map (Option.map (·.on besideReceipts))).filterMap id =
              (targets.filterMap id).map (·.on besideReceipts) := by
            rw [List.filterMap_map, List.map_filterMap]
            rfl
          simp only [Except.map, htargets, AnnotationVisitor.collapse_besideReceipts,
            Option.isSome_map]
          rfl
      · have hresult : ((list.mapM (ask · r)).exec d.state).1.isOk = false := by
          rcases hlist : (list.mapM (ask · r)).exec d.state with ⟨_ | _, s⟩
          · rfl
          · refine absurd ⟨hm, ?_⟩ hopen
            simp [hear, ask_observers, hbarred, hlist, Except.map]
        obtain ⟨i, -, hi, hbefore⟩ := hrefused hresult
        exact fun j hj => ⟨i, hi, hbefore j hj⟩
  | element r =>
    refine ⟨[], ?_, fun _ _ j hj => absurd hj List.not_mem_nil⟩
    obtain ⟨s, _ | a⟩ := d
    · simp [hear, Session.noted]
    · simp [hear, Session.noted, besideReceipts]

/-- An end that the list accepts closes the guard, and it is the only message that does. -/
theorem hear_ordered_notedFrom (m : Message) :
    ∃ receipts : Receipts,
      ((observers level list).Closes d m ∧
          (observers level (notedFrom 0 list)).ordered.hear ((d.noted log).guarded .members) m =
            (((observers level list).hear d m).1,
              .start (.ended, log ++ receipts, ((observers level list).hear d m).2.state)) ∨
        ¬(observers level list).Closes d m ∧
          (observers level (notedFrom 0 list)).ordered.hear ((d.noted log).guarded .members) m =
            (((observers level list).hear d m).1,
              (((observers level list).hear d m).2.noted (log ++ receipts)).guarded .members) ∧
          (m = .field .finish →
            ∀ j, (j, true) ∈ receipts → ∃ i, (i, false) ∈ receipts ∧ j < i)) := by
  obtain ⟨receipts, hhear, hundone⟩ := hear_notedFrom level list d log m
  have hcloses : (observers level (notedFrom 0 list)).Closes (d.noted log) m ↔
      (observers level list).Closes d m := by
    rw [Closes, Closes, hhear]
  refine ⟨receipts, ?_⟩
  by_cases hm : (observers level list).Closes d m
  · refine .inl ⟨hm, ?_⟩
    rw [hear_ordered_closes (hcloses.2 hm), hhear]
    rfl
  · refine .inr ⟨hm, ?_, fun h => hundone h hm⟩
    rw [hear_ordered_of_not_closes (mt hcloses.1 hm), hhear]

/-- The receipts are not noticed behind a guard either. -/
theorem answers_ordered_notedFrom (ms : List Message) :
    (observers level (notedFrom 0 list)).ordered.answers ((d.noted log).guarded .members) ms =
      (observers level list).ordered.answers (d.guarded .members) ms := by
  induction ms generalizing d log with
  | nil => rfl
  | cons m ms ih =>
    obtain ⟨receipts, ⟨hm, hhear⟩ | ⟨hm, hhear, -⟩⟩ := hear_ordered_notedFrom level list d log m
    · rw [answers_cons, answers_cons, hhear, hear_ordered_closes hm, (ordered_drive_ended ..).1,
        (ordered_drive_ended ..).1]
    · rw [answers_cons, answers_cons, hhear, hear_ordered_of_not_closes hm, ih]

end

/-! ## Rounds -/

/-- A request, and the receipts that the observers of a list leave for it. -/
structure Round where
  request : Request
  receipts : Receipts

/-- The requests among the messages to a guarded list, each with the receipts for it. -/
def rounds (v : FieldVisitor (Phase × Receipts × σ)) :
    Session (Phase × Receipts × σ) → List Message → List Round
  | _, [] => []
  | d, .field r :: ms =>
    let after := (v.hear d (.field r)).2
    ⟨r, after.state.2.1.drop d.state.2.1.length⟩ :: rounds v after ms
  | d, .element r :: ms => rounds v (v.hear d (.element r)).2 ms

section
variable {v : FieldVisitor (Phase × Receipts × σ)} {d d' : Session (Phase × Receipts × σ)}
  {answer : Option Answer}

theorem rounds_cons_field {r : Request} {receipts : Receipts}
    (h : v.hear d (.field r) = (answer, d')) (hlog : d'.state.2.1 = d.state.2.1 ++ receipts)
    (ms : List Message) : rounds v d (.field r :: ms) = ⟨r, receipts⟩ :: rounds v d' ms := by
  simp [rounds, h, hlog]

theorem rounds_cons_element {r : AnnotationVisitor.Request}
    (h : v.hear d (.element r) = (answer, d')) (ms : List Message) :
    rounds v d (.element r :: ms) = rounds v d' ms := by
  rw [rounds, h]

end

namespace Round

/-- The observer at a position is sent the request. -/
def Reaches (round : Round) (j : Nat) : Prop := ∃ receipt ∈ round.receipts, receipt.1 = j

/-- The observer at a position accepts the request. -/
def Accepted (round : Round) (j : Nat) : Prop := (j, true) ∈ round.receipts

/-- The request is an end, and an observer behind the position refuses it. -/
def Undone (round : Round) (j : Nat) : Prop :=
  round.request = .finish ∧ ∃ receipt ∈ round.receipts, receipt.2 = false ∧ j < receipt.1

variable (round : Round) (j : Nat)

instance : Decidable (round.Reaches j) := inferInstanceAs (Decidable (∃ _ ∈ _, _))

instance : Decidable (round.Accepted j) := inferInstanceAs (Decidable (_ ∈ _))

instance : Decidable (round.Undone j) := inferInstanceAs (Decidable (_ ∧ _))

variable {round j}

theorem Accepted.reaches (h : round.Accepted j) : round.Reaches j := ⟨_, h, rfl⟩

end Round

/-- Annotations, type annotations and attributes in any order, and then at most one end. -/
def InOrder (requests : List Request) : Prop :=
  ∃ members, .finish ∉ members ∧ (requests = members ∨ requests = members ++ [.finish])

theorem InOrder.of_pairwise {requests : List Request}
    (h : requests.Pairwise fun r _ => r ≠ .finish) : InOrder requests := by
  induction requests with
  | nil => exact ⟨[], List.not_mem_nil, .inl rfl⟩
  | cons r requests ih =>
    obtain ⟨hr, hrest⟩ := List.pairwise_cons.1 h
    cases requests with
    | nil =>
      by_cases hfinish : r = .finish
      · exact ⟨[], List.not_mem_nil, .inr (by simp [hfinish])⟩
      · exact ⟨[r], by simp [Ne.symm hfinish], .inl rfl⟩
    | cons r' requests =>
      have hfirst : r ≠ .finish := hr r' List.mem_cons_self
      obtain ⟨members, hmembers, hshape⟩ := ih hrest
      refine ⟨r :: members, by simp [hfirst.symm, hmembers], ?_⟩
      exact hshape.imp (congrArg _) (congrArg _)

/-- After an end that counts for the observer at a position, no request reaches it, and the requests
that count for it are in order. -/
def Protects (j : Nat) (counts : Round → Prop) [DecidablePred counts] (rounds : List Round) : Prop :=
  rounds.Pairwise (fun round later =>
      counts round → round.request = .finish → ¬later.Reaches j) ∧
    InOrder ((rounds.filter counts).map Round.request)

theorem Protects.of_pairwise {j : Nat} {counts : Round → Prop} [DecidablePred counts]
    (hcounts : ∀ round, counts round → round.Reaches j) {rounds : List Round}
    (h : rounds.Pairwise fun round later =>
      counts round → round.request = .finish → ¬later.Reaches j) : Protects j counts rounds := by
  refine ⟨h, .of_pairwise (List.pairwise_map.2 ?_)⟩
  rw [List.pairwise_filter]
  refine h.imp fun hround hcount hlater hfinish => ?_
  exact hround (of_decide_eq_true hcount) hfinish (hcounts _ (of_decide_eq_true hlater))

/-! ## Guarded lists -/

/-- A guard that has closed lets nothing through. -/
theorem not_reaches_of_mem_rounds_ended (v : FieldVisitor (Receipts × σ)) (t : Receipts × σ)
    (ms : List Message) (j : Nat) :
    ∀ round ∈ rounds v.ordered (.start (.ended, t)) ms, ¬round.Reaches j := by
  induction ms with
  | nil => nofun
  | cons m ms ih =>
    cases m with
    | element r =>
      rw [rounds_cons_element (hear_ordered_ended ..)]
      exact ih
    | field r =>
      rw [rounds_cons_field (hear_ordered_ended ..) (List.append_nil _).symm]
      exact List.forall_mem_cons.2 ⟨nofun, ih⟩

theorem pairwise_rounds (level : Level) (list : List (FieldVisitor σ)) (d : Session σ)
    (log : Receipts) (ms : List Message) (j : Nat) :
    (rounds (observers level (notedFrom 0 list)).ordered
        ((d.noted log).guarded .members) ms).Pairwise fun round later =>
      round.Accepted j ∧ ¬round.Undone j → round.request = .finish → ¬later.Reaches j := by
  induction ms generalizing d log with
  | nil => exact .nil
  | cons m ms ih =>
    obtain ⟨receipts, ⟨⟨rfl, -⟩, hhear⟩ | ⟨-, hhear, hundone⟩⟩ :=
      hear_ordered_notedFrom level list d log m
    · rw [rounds_cons_field hhear rfl]
      have hlate := not_reaches_of_mem_rounds_ended (observers level (notedFrom 0 list))
        (log ++ receipts, ((observers level list).hear d (.field .finish)).2.state) ms j
      refine List.pairwise_cons.2 ⟨fun later hlater _ _ => hlate later hlater, ?_⟩
      exact List.pairwise_iff_getElem.2 fun _ _ _ hk _ _ _ => hlate _ (List.getElem_mem hk)
    · cases m with
      | element r =>
        rw [rounds_cons_element hhear]
        exact ih ..
      | field r =>
        rw [rounds_cons_field hhear rfl]
        refine List.pairwise_cons.2 ⟨fun _ _ hcounts hfinish => ?_, ih ..⟩
        -- The guard is still open, so whoever accepted the end has a refusal behind it.
        obtain ⟨haccepted, hnot⟩ := hcounts
        cases hfinish
        obtain ⟨i, hi, hlt⟩ := hundone rfl j haccepted
        exact absurd ⟨rfl, (i, false), hi, rfl, hlt⟩ hnot

/-- A guard before a list of observers, which may refuse anything at any time, keeps from each of
them what comes after an end that it has accepted, unless an observer behind it has refused the same
end. So what an observer accepts is in order, but for such ends. -/
theorem guarded_list_protected (level : Level) (list : List (FieldVisitor σ)) (s : σ)
    (ms : List Message) (j : Nat) :
    (observers level (notedFrom 0 list)).ordered.answers (.start (.members, [], s)) ms =
        (observers level list).ordered.answers (.start (.members, s)) ms ∧
      Protects j (fun round => round.Accepted j ∧ ¬round.Undone j)
        (rounds (observers level (notedFrom 0 list)).ordered (.start (.members, [], s)) ms) :=
  ⟨answers_ordered_notedFrom level list (.start s) [] ms,
    .of_pairwise (fun _ h => h.1.reaches) (pairwise_rounds level list (.start s) [] ms j)⟩

/-- Accepts everything but the end. -/
def endless (level : Level) : FieldVisitor σ where
  level := level
  annotate _ _ := pure none
  annotateType _ _ _ := pure none
  attach _ := pure ()
  finish := .of (.error barred)

/-- Where the second observer refuses the end, an attribute still gets to the first, which has
accepted it. -/
theorem not_protected :
    ¬∀ (level : Level) (list : List (FieldVisitor Unit)) (s : Unit) (ms : List Message) (j : Nat),
      Protects j (·.Accepted j)
        (rounds (observers level (notedFrom 0 list)).ordered (.start (.members, [], s)) ms) := by
  intro h
  have hpairwise := (h .asm7 [FieldLink.visitor ⟨.asm7, none⟩, endless .asm7] ()
    [.field .finish, .field (.attach ⟨"Late", []⟩)] 0).1
  revert hpairwise
  decide

end FieldVisitor

end ClassUnit
