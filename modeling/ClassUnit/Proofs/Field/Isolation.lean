import ClassUnit.Proofs.Field.Session
import Mathlib.Data.List.FinRange
import Mathlib.Data.List.Induction

/-! # Observers of one visit

Observers on one list know nothing of each other. All that one of them can do to the others is to
refuse a message, which then goes no further along the list. So an observer ends as if driven alone
by the messages that those before it let pass, and the list answers each message as the first
observer that refuses it (`panel_isolated`).

The observers of a `panel` have a state each. While the list is driven, its session is `Aligned`
with those of its observers: their states stand side by side, and the annotation visitor at hand
stands for all those that they have at hand. -/

namespace ClassUnit

variable {ε α β : Type} {n : Nat} {σ : Fin n → Type}

theorem Except.isOk_map (f : α → β) (r : Except ε α) : (r.map f).isOk = r.isOk := by
  cases r <;> rfl

/-! ## States side by side -/

/-- The state of one member of a family. -/
def Part.component (i : Fin n) : Part (∀ i, σ i) (σ i) where
  get s := s i
  put x s := Function.update s i x

theorem Run.exec_on_component (i : Fin n) (x : Run ε (σ i) α) (t : ∀ i, σ i) :
    (x.on (.component i)).exec t = ((x.exec (t i)).1, Function.update t i (x.exec (t i)).2) := rfl

section
variable (x : ∀ i, Run ε (σ i) α) (s : ∀ i, σ i)

/-- The turn of a member comes if those before it succeed. -/
def Run.Turn (is : List (Fin n)) (j : Fin n) : Prop :=
  j ∈ is ∧ ∀ i ∈ is, i < j → ((x i).exec (s i)).1.isOk

instance (is : List (Fin n)) (j : Fin n) : Decidable (Run.Turn x s is j) :=
  inferInstanceAs (Decidable (_ ∧ _))

theorem Run.turn_cons_self {i : Fin n} {is : List (Fin n)} (hi : ∀ k ∈ is, i < k) :
    Run.Turn x s (i :: is) i := by
  refine ⟨List.mem_cons_self, fun k hk hlt => ?_⟩
  rcases List.mem_cons.1 hk with rfl | hk
  · exact absurd hlt (lt_irrefl _)
  · exact absurd hlt (hi k hk).not_gt

theorem Run.turn_cons_of_ne {i j : Fin n} {is : List (Fin n)} (hi : ∀ k ∈ is, i < k)
    (hj : j ≠ i) :
    Run.Turn x s (i :: is) j ↔ ((x i).exec (s i)).1.isOk ∧ Run.Turn x s is j := by
  simp only [Turn, List.mem_cons, hj, false_or, forall_eq_or_imp]
  exact ⟨fun ⟨hmem, hlt, hrest⟩ => ⟨hlt (hi j hmem), hmem, hrest⟩,
    fun ⟨hok, hmem, hrest⟩ => ⟨hmem, fun _ => hok, hrest⟩⟩

/-- Where members act in turn, each that acts does so as it would alone, and the first to fail is
the last to act. -/
theorem Run.exec_mapM_component {is : List (Fin n)} (hsorted : is.Pairwise (· < ·)) {t : ∀ i, σ i}
    (ht : ∀ i ∈ is, t i = s i) :
    (is.mapM fun i => (x i).on (.component i)).exec t =
      (is.mapM fun i => ((x i).exec (s i)).1, fun j =>
        if Run.Turn x s is j then ((x j).exec (s j)).2 else t j) := by
  induction is generalizing t with
  | nil =>
    simp [Turn]
    rfl
  | cons i is ih =>
    obtain ⟨hi, hsorted⟩ := List.pairwise_cons.1 hsorted
    have hself := Run.turn_cons_self x s hi
    have hother := fun j => Run.turn_cons_of_ne x s (j := j) hi
    rw [List.mapM_cons, List.mapM_cons, exec_bind, exec_on_component, ht i List.mem_cons_self]
    rcases hx : (x i).exec (s i) with ⟨e | a, s'⟩
    · refine Prod.ext rfl (funext fun j => ?_)
      rcases eq_or_ne j i with rfl | hj
      · simp [hself, hx]
      · simp [hother j hj, hj, hx, Except.isOk, Except.toBool]
    · have ht' : ∀ k ∈ is, Function.update t i s' k = s k := fun k hk => by
        rw [Function.update_of_ne (hi k hk).ne', ht k (List.mem_cons_of_mem _ hk)]
      simp only [exec_bind, ih hsorted ht']
      have hstate : (fun j => if Run.Turn x s is j then ((x j).exec (s j)).2 else
          Function.update t i s' j) = fun j =>
            if Run.Turn x s (i :: is) j then ((x j).exec (s j)).2 else t j := by
        funext j
        rcases eq_or_ne j i with rfl | hj
        · have hnot : ¬Run.Turn x s is j := fun h => (hi j h.1).false
          simp [hself, hnot, hx]
        · simp [hother j hj, hj, hx, Except.isOk, Except.toBool]
      rw [hstate]
      rcases is.mapM (fun i => ((x i).exec (s i)).1) with _ | _ <;> rfl

/-- How a state is left where all members act in turn. -/
def Run.relayed : ∀ i, σ i := fun j =>
  if ∀ i < j, ((x i).exec (s i)).1.isOk then ((x j).exec (s j)).2 else s j

theorem Run.exec_mapM_finRange :
    ((List.finRange n).mapM fun i => (x i).on (.component i)).exec s =
      ((List.finRange n).mapM fun i => ((x i).exec (s i)).1, Run.relayed x s) := by
  rw [exec_mapM_component x s (List.pairwise_lt_finRange n) fun _ _ => rfl]
  refine Prod.ext rfl (funext fun j => ?_)
  simp [Turn, relayed]

end

/-! ## Results in turn -/

section
variable {f : Fin n → Except ε α} {is : List (Fin n)}

theorem mapM_eq_ok {g : Fin n → α} (h : ∀ i ∈ is, f i = .ok (g i)) :
    is.mapM f = .ok (is.map g) := by
  induction is with
  | nil => rfl
  | cons i is ih =>
    rw [List.mapM_cons, h i List.mem_cons_self, ih fun k hk => h k (List.mem_cons_of_mem _ hk)]
    rfl

theorem mapM_eq_error (hsorted : is.Pairwise (· < ·)) {j : Fin n} (hj : j ∈ is) {e : ε}
    (h : f j = .error e) (hbefore : ∀ i < j, (f i).isOk) : is.mapM f = .error e := by
  induction is with
  | nil => cases hj
  | cons i is ih =>
    obtain ⟨hi, hsorted⟩ := List.pairwise_cons.1 hsorted
    rw [List.mapM_cons]
    rcases List.mem_cons.1 hj with rfl | hj
    · rw [h]
      rfl
    · have hok := hbefore i (hi j hj)
      rw [ih hsorted hj]
      rcases hf : f i with _ | _
      · rw [hf] at hok
        cases hok
      · rfl

end

/-- Either all results are fine, or there is a first that is not. -/
theorem forall_isOk_or_first {α : Fin n → Type} (f : ∀ i, Except ε (α i)) :
    (∀ i, (f i).isOk) ∨ ∃ j e, f j = .error e ∧ ∀ i < j, (f i).isOk := by
  refine or_iff_not_imp_right.2 fun hfirst i => ?_
  induction i using WellFoundedLT.induction with
  | ind i ih =>
    rcases hf : f i with e | a
    · exact absurd ⟨i, e, hf, ih⟩ hfirst
    · rfl

namespace FieldVisitor

/-! ## What a message makes a visitor do -/

section
variable {σ : Type}

/-- The action of a visitor on a message, for the field and for the annotation visitor at hand. -/
def respond (v : FieldVisitor σ) (d : Session σ) : Message → Visit σ (Option (AnnotationVisitor σ))
  | .field r => v.ask r
  | .element r =>
    match d.atHand with
    | some a => (fun _ => none) <$> a.ask r
    | none => pure none

def refuses (v : FieldVisitor σ) (d : Session σ) (m : Message) : Bool :=
  match (v.hear d m).1 with
  | some (.error _) => true
  | _ => false

/-- A message gets to the observers of a list unless it is a request that the level bars, or one
for an annotation visitor and none is at hand. -/
def GetsThrough (level : Level) (d : Session σ) : Message → Prop
  | .field r => ¬r.Barred level
  | .element _ => d.atHand.isSome

instance (level : Level) (d : Session σ) : (m : Message) → Decidable (GetsThrough level d m)
  | .field r => inferInstanceAs (Decidable ¬r.Barred level)
  | .element _ => inferInstanceAs (Decidable (d.atHand.isSome = true))

variable (v : FieldVisitor σ) (d : Session σ) (m : Message)

theorem hear_state : (v.hear d m).2.state = ((v.respond d m).exec d.state).2 := by
  rcases d with ⟨s, _ | a⟩ <;> cases m <;> simp [hear, respond]

theorem hear_field_atHand (r : Request) :
    (v.hear d (.field r)).2.atHand = ((v.respond d (.field r)).exec d.state).1.toOption.join := rfl

theorem hear_element_atHand (r : AnnotationVisitor.Request) :
    (v.hear d (.element r)).2.atHand = d.atHand := by
  rcases d with ⟨s, _ | a⟩ <;> rfl

/-- A message that is sent is answered with its outcome, and the others do nothing. -/
theorem hear_answer :
    (v.hear d m).1 = some (((v.respond d m).exec d.state).1.map Option.isSome) ∨
      (∀ level, ¬GetsThrough level d m) ∧ (v.hear d m).1 = none ∧
        ((v.respond d m).exec d.state).1 = .ok none := by
  cases m with
  | field r => exact .inl rfl
  | element r =>
    obtain ⟨s, _ | a⟩ := d
    · exact .inr ⟨fun _ => nofun, rfl, rfl⟩
    · refine .inl ?_
      simp only [hear, respond, Run.exec_map]
      rcases ((a.ask r).exec s).1 with _ | _ <;> rfl

/-- A visitor answers a message with an error exactly if its response fails. -/
theorem hear_eq_error_iff (e : Error) :
    (v.hear d m).1 = some (.error e) ↔ ((v.respond d m).exec d.state).1 = .error e := by
  rcases hear_answer v d m with h | ⟨-, h, hnone⟩
  · rw [h]
    rcases ((v.respond d m).exec d.state).1 with _ | _ <;> simp [Except.map]
  · rw [h, hnone]
    exact iff_of_false nofun nofun

theorem hear_eq_handsOut_iff :
    (v.hear d m).1 = some (.ok true) ↔ ∃ a, ((v.respond d m).exec d.state).1 = .ok (some a) := by
  rcases hear_answer v d m with h | ⟨-, h, hnone⟩
  · rw [h]
    rcases ((v.respond d m).exec d.state).1 with _ | _ <;>
      simp [Except.map, Option.isSome_iff_exists]
  · rw [h, hnone]
    exact iff_of_false nofun fun ⟨_, ha⟩ => nomatch ha

theorem hear_eq_ok {level : Level} (hgets : GetsThrough level d m)
    {handed : Option (AnnotationVisitor σ)}
    (h : ((v.respond d m).exec d.state).1 = .ok handed) :
    (v.hear d m).1 = some (.ok handed.isSome) := by
  rcases hear_answer v d m with hanswer | ⟨hstopped, -⟩
  · rw [hanswer, h]
    rfl
  · exact absurd hgets (hstopped level)

theorem refuses_eq_false_iff :
    v.refuses d m = false ↔ ∀ e, (v.hear d m).1 ≠ some (.error e) := by
  rw [refuses]
  rcases (v.hear d m).1 with _ | e | _ <;> simp

theorem refuses_eq_false_iff_isOk :
    v.refuses d m = false ↔ ((v.respond d m).exec d.state).1.isOk = true := by
  simp only [refuses_eq_false_iff, ne_eq, hear_eq_error_iff]
  rcases ((v.respond d m).exec d.state).1 with e | a
  · exact ⟨fun h => absurd rfl (h e), nofun⟩
  · exact ⟨fun _ => rfl, fun _ _ => nofun⟩

end

/-! ## What reaches an observer -/

section
variable {σ : Type}

/-- Of the messages sent to a visitor, the ones that it does not refuse. -/
def passed (v : FieldVisitor σ) : Session σ → List Message → List Message
  | _, [] => []
  | d, m :: ms => (if v.refuses d m then [] else [m]) ++ v.passed (v.hear d m).2 ms

/-- Of the messages sent to a list, the ones that get to its observers. -/
def delivered (level : Level) (v : FieldVisitor σ) : Session σ → List Message → List Message
  | _, [] => []
  | d, m :: ms => (if GetsThrough level d m then [m] else []) ++ v.delivered level (v.hear d m).2 ms

variable (v : FieldVisitor σ) (d : Session σ) (ms ms' : List Message)

theorem passed_append :
    v.passed d (ms ++ ms') = v.passed d ms ++ v.passed (v.after d ms) ms' := by
  induction ms generalizing d with
  | nil => rfl
  | cons m ms ih => simp [passed, ih]

/-- Nothing is passed on but what came in, in the same order. -/
theorem passed_sublist : (v.passed d ms).Sublist ms := by
  induction ms generalizing d with
  | nil => exact .slnil
  | cons m ms ih =>
    rw [passed]
    split
    · exact (ih _).cons m
    · exact (ih _).cons_cons m

theorem delivered_append (level : Level) :
    v.delivered level d (ms ++ ms') =
      v.delivered level d ms ++ v.delivered level (v.after d ms) ms' := by
  induction ms generalizing d with
  | nil => rfl
  | cons m ms ih => simp [delivered, ih]

theorem delivered_sublist (level : Level) : (v.delivered level d ms).Sublist ms := by
  induction ms generalizing d with
  | nil => exact .slnil
  | cons m ms ih =>
    rw [delivered]
    split
    · exact (ih _).cons_cons m
    · exact (ih _).cons m

end

/-- Of the messages that get to the observers, the ones that reach the observer at a position: each
observer before it, driven alone by what reaches it in turn, keeps back what it refuses. -/
def reaching (o : ∀ i, FieldVisitor (σ i)) (s : ∀ i, σ i) (ms : List Message) :
    Fin (n + 1) → List Message :=
  Fin.induction ms fun i reached => (o i).passed (.start (s i)) reached

section
variable (o : ∀ i, FieldVisitor (σ i)) (s : ∀ i, σ i) (ms : List Message)

/-- An observer is reached by what the one before it passes on. -/
theorem reaching_succ (i : Fin n) :
    reaching o s ms i.succ = (o i).passed (.start (s i)) (reaching o s ms i.castSucc) :=
  Fin.induction_succ ..

theorem reaching_sublist (j : Fin (n + 1)) : (reaching o s ms j).Sublist ms := by
  induction j using Fin.induction with
  | zero => exact .refl ms
  | succ i ih =>
    rw [reaching_succ]
    exact (passed_sublist ..).trans ih

/-- Once the messages have reached them, no observer before the position refuses another one. -/
def Unopposed (m : Message) (j : Fin (n + 1)) : Prop :=
  ∀ i : Fin n, i.castSucc < j →
    (o i).refuses ((o i).after (.start (s i)) (reaching o s ms i.castSucc)) m = false

instance (m : Message) (j : Fin (n + 1)) : Decidable (Unopposed o s ms m j) :=
  inferInstanceAs (Decidable (∀ _ : Fin n, _ → _))

theorem unopposed_zero (m : Message) : Unopposed o s ms m 0 := fun _ h => absurd h (Fin.not_lt_zero _)

theorem unopposed_succ (m : Message) (i : Fin n) :
    Unopposed o s ms m i.succ ↔ Unopposed o s ms m i.castSucc ∧
      (o i).refuses ((o i).after (.start (s i)) (reaching o s ms i.castSucc)) m = false := by
  constructor
  · exact fun h => ⟨fun k hk => h k (hk.trans Fin.castSucc_lt_succ), h i Fin.castSucc_lt_succ⟩
  · rintro ⟨h, hi⟩ k hk
    rcases (Fin.castSucc_lt_succ_iff.1 hk).lt_or_eq with hlt | rfl
    · exact h k (Fin.castSucc_lt_castSucc_iff.2 hlt)
    · exact hi

/-- A message reaches those before whom nobody refuses it. -/
theorem reaching_append_singleton (m : Message) (j : Fin (n + 1)) :
    reaching o s (ms ++ [m]) j =
      reaching o s ms j ++ if Unopposed o s ms m j then [m] else [] := by
  induction j using Fin.induction with
  | zero =>
    rw [if_pos (unopposed_zero o s ms m)]
    rfl
  | succ i ih =>
    rw [reaching_succ, reaching_succ, ih, passed_append]
    congr 1
    by_cases hbefore : Unopposed o s ms m i.castSucc
    · simp only [unopposed_succ, hbefore, true_and, if_true, passed, List.append_nil]
      rcases (o i).refuses ((o i).after (.start (s i)) (reaching o s ms i.castSucc)) m <;> rfl
    · simp [unopposed_succ, hbefore, passed]

end

/-! ## The list and its observers -/

/-- Observers of one visit, each with a state of its own. -/
def panel (level : Level) (o : ∀ i, FieldVisitor (σ i)) : FieldVisitor (∀ i, σ i) :=
  observers level ((List.finRange n).map fun i => (o i).on (.component i))

section
variable (level : Level) (o : ∀ i, FieldVisitor (σ i)) (s : ∀ i, σ i) (ms : List Message)

/-- An observer driven alone by what reaches it. -/
def alone (j : Fin n) : Session (σ j) :=
  (o j).after (.start (s j))
    (reaching o s ((panel level o).delivered level (.start s) ms) j.castSucc)

/-- Driven alone, an observer hears a message if it gets through and nobody before refuses it. -/
theorem alone_append_singleton (m : Message) (j : Fin n) :
    alone level o s (ms ++ [m]) j =
      if GetsThrough level ((panel level o).after (.start s) ms) m ∧
          ∀ i < j, (o i).refuses (alone level o s ms i) m = false
      then ((o j).hear (alone level o s ms j) m).2 else alone level o s ms j := by
  rw [alone, delivered_append]
  by_cases hgets : GetsThrough level ((panel level o).after (.start s) ms) m
  · simp only [delivered, hgets, if_true, true_and, List.append_nil]
    have hunopposed : Unopposed o s ((panel level o).delivered level (.start s) ms) m j.castSucc ↔
        ∀ i < j, (o i).refuses (alone level o s ms i) m = false := by
      simp only [Unopposed, Fin.castSucc_lt_castSucc_iff, alone]
    rw [reaching_append_singleton, after_append]
    by_cases h : ∀ i < j, (o i).refuses (alone level o s ms i) m = false
    · rw [if_pos (hunopposed.2 h), if_pos h]
      rfl
    · rw [if_neg fun h' => h (hunopposed.1 h'), if_neg h]
      rfl
  · simp [delivered, hgets, alone]

/-- The observers are where they would be if driven alone, and the annotation visitor at hand, if
there is one, stands for all that they have handed out. -/
structure Aligned (D : Session (∀ i, σ i)) (d : ∀ i, Session (σ i)) : Prop where
  state : D.state = fun i => (d i).state
  atHand : D.atHand = none ∨ D.atHand = AnnotationVisitor.collapse
    ((List.finRange n).filterMap fun i => (d i).atHand.map (·.on (.component i)))

variable {level o} {D : Session (∀ i, σ i)} {d : ∀ i, Session (σ i)} {m : Message}

theorem respond_panel (hD : Aligned D d) (hgets : GetsThrough level D m) :
    (panel level o).respond D m =
      (fun targets => AnnotationVisitor.collapse (targets.filterMap id)) <$>
        (List.finRange n).mapM fun i =>
          (Option.map (·.on (.component i)) <$> (o i).respond (d i) m).on (.component i) := by
  cases m with
  | field r =>
    rw [respond, panel, ask_observers, if_neg hgets, List.mapM_map]
    simp only [Function.comp_def, ask_on]
    rfl
  | element r =>
    obtain ⟨a, ha⟩ := Option.isSome_iff_exists.1 hgets
    have htargets := hD.atHand.resolve_left (by simp [ha])
    rw [ha] at htargets
    simp only [respond, ha]
    rw [AnnotationVisitor.ask_collapse htargets.symm, forM_filterMap, ← collapse_silent]
    -- One that handed nothing out is passed by, and stays as it is.
    congr 2
    funext i
    refine Run.ext fun t => ?_
    rcases (d i).atHand with _ | a
    · simp [Part.component]
    · rcases h : (a.ask r).exec (t i) with ⟨_ | _, s⟩ <;> simp [Part.component, Except.map, h]

/-- What the list makes of the answers of its observers: an acceptance if none of them refuses, with
an annotation visitor if any of them hands one out, and otherwise the first refusal as it is. -/
def Verdict (each : Fin n → Option Answer) : Answer → Prop
  | .ok handsOut => (∀ j e, each j ≠ some (.error e)) ∧ (handsOut ↔ ∃ j, each j = some (.ok true))
  | .error e => ∃ j, each j = some (.error e) ∧ ∀ i < j, ∀ e', each i ≠ some (.error e')

/-- The state of an observer changes as if it were alone, if the message comes as far as it. -/
theorem exec_respond_panel_state (hD : Aligned D d) (hgets : GetsThrough level D m) (j : Fin n) :
    (((panel level o).respond D m).exec D.state).2 j =
      if ∀ i < j, (o i).refuses (d i) m = false then ((o j).hear (d j) m).2.state
      else (d j).state := by
  rw [respond_panel hD hgets, Run.exec_map, Run.exec_mapM_finRange, hD.state]
  simp only [Run.relayed, refuses_eq_false_iff_isOk, hear_state, Run.exec_map, Except.isOk_map]

/-- The list accepts what all observers accept, and hands out one visitor for all that they hand
out. Otherwise it fails as the first observer that refuses. -/
theorem exec_respond_panel_result (hD : Aligned D d) (hgets : GetsThrough level D m) :
    (∀ i, (o i).refuses (d i) m = false) ∧
        (((panel level o).respond D m).exec D.state).1 =
          .ok (AnnotationVisitor.collapse ((List.finRange n).filterMap fun i =>
            (((o i).respond (d i) m).exec (d i).state).1.toOption.join.map (·.on (.component i)))) ∨
      ∃ j e, (((o j).respond (d j) m).exec (d j).state).1 = .error e ∧
        (∀ i < j, (o i).refuses (d i) m = false) ∧
        (((panel level o).respond D m).exec D.state).1 = .error e := by
  rw [respond_panel hD hgets, Run.exec_map, Run.exec_mapM_finRange, hD.state]
  simp only [refuses_eq_false_iff_isOk, Run.exec_map]
  rcases forall_isOk_or_first fun i => (((o i).respond (d i) m).exec (d i).state).1 with
    hok | ⟨j, e, hj, hbefore⟩
  · refine .inl ⟨hok, ?_⟩
    have hresults : ∀ i ∈ List.finRange n,
        (((o i).respond (d i) m).exec (d i).state).1.map
          (Option.map (AnnotationVisitor.on (.component i))) =
        .ok ((((o i).respond (d i) m).exec (d i).state).1.toOption.join.map
          (AnnotationVisitor.on (.component i))) := fun i _ => by
      have hi := hok i
      rcases hresult : (((o i).respond (d i) m).exec (d i).state).1 with e | a
      · rw [hresult] at hi
        cases hi
      · rfl
    rw [mapM_eq_ok hresults]
    simp [Except.map, List.filterMap_map]
  · refine .inr ⟨j, e, hj, hbefore, ?_⟩
    have herror : (((o j).respond (d j) m).exec (d j).state).1.map
        (Option.map (AnnotationVisitor.on (.component j))) = .error e := by
      rw [hj]
      rfl
    rw [mapM_eq_error (List.pairwise_lt_finRange n) (List.mem_finRange j) herror]
    · rfl
    · exact fun i hi => by rw [Except.isOk_map]; exact hbefore i hi

/-- The sessions of the observers after a message that is sent to the list. -/
def heardBy (level : Level) (o : ∀ i, FieldVisitor (σ i)) (D : Session (∀ i, σ i))
    (d : ∀ i, Session (σ i)) (m : Message) (j : Fin n) : Session (σ j) :=
  if GetsThrough level D m ∧ ∀ i < j, (o i).refuses (d i) m = false then ((o j).hear (d j) m).2
  else d j

theorem hear_panel_of_not_getsThrough (hgets : ¬GetsThrough level D m) :
    (panel level o).hear D m =
      match m with
      | .field _ => (some (.error barred), ⟨D.state, none⟩)
      | .element _ => (none, D) := by
  cases m with
  | field r =>
    simp only [GetsThrough, not_not] at hgets
    simp only [hear, panel, ask_observers, if_pos hgets]
    rfl
  | element r =>
    obtain ⟨t, _ | a⟩ := D
    · rfl
    · exact absurd rfl hgets

theorem Aligned.hear (hD : Aligned D d) (m : Message) :
    Aligned ((panel level o).hear D m).2 (heardBy level o D d m) := by
  by_cases hgets : GetsThrough level D m
  · have hstate : ((panel level o).hear D m).2.state = fun i => (heardBy level o D d m i).state := by
      rw [hear_state]
      funext j
      rw [exec_respond_panel_state hD hgets, heardBy]
      simp only [hgets, true_and]
      split <;> rfl
    refine ⟨hstate, ?_⟩
    cases m with
    | element r =>
      have hsame : ∀ i, (heardBy level o D d (.element r) i).atHand = (d i).atHand := fun i => by
        rw [heardBy]
        split
        · exact hear_element_atHand ..
        · rfl
      simp only [hear_element_atHand, hsame]
      exact hD.atHand
    | field r =>
      rw [hear_field_atHand]
      rcases exec_respond_panel_result (o := o) hD hgets with
        ⟨haccepted, hresult⟩ | ⟨j, e, -, -, hresult⟩
      · have hheard : ∀ i, heardBy level o D d (.field r) i = ((o i).hear (d i) (.field r)).2 :=
          fun i => if_pos ⟨hgets, fun k _ => haccepted k⟩
        simp only [hresult, hheard, hear_field_atHand]
        exact .inr rfl
      · rw [hresult]
        exact .inl rfl
  · have hsame : heardBy level o D d m = d := by
      funext j
      rw [heardBy, if_neg fun h => hgets h.1]
    rw [hsame, hear_panel_of_not_getsThrough hgets]
    cases m with
    | field r => exact ⟨hD.state, .inl rfl⟩
    | element r => exact hD

theorem verdict_hear_panel (hD : Aligned D d) (hgets : GetsThrough level D m) :
    ∃ answer, ((panel level o).hear D m).1 = some answer ∧
      Verdict (fun j => ((o j).hear (d j) m).1) answer := by
  rcases exec_respond_panel_result (o := o) hD hgets with
    ⟨haccepted, hresult⟩ | ⟨j, e, hj, hbefore, hresult⟩
  · refine ⟨_, hear_eq_ok _ _ _ hgets hresult, fun j => (refuses_eq_false_iff ..).1 (haccepted j), ?_⟩
    have hhanded (j : Fin n) (a : AnnotationVisitor (σ j)) :
        (((o j).respond (d j) m).exec (d j).state).1 = .ok (some a) ↔
          (((o j).respond (d j) m).exec (d j).state).1.toOption.join = some a := by
      rcases (((o j).respond (d j) m).exec (d j).state).1 with _ | _ <;> simp [Except.toOption]
    simp only [AnnotationVisitor.isSome_collapse, List.mem_filterMap, List.mem_finRange, true_and,
      Option.map_eq_some_iff, hear_eq_handsOut_iff, hhanded]
    exact ⟨fun ⟨_, j, a, ha, _⟩ => ⟨j, a, ha⟩, fun ⟨j, a, ha⟩ => ⟨_, j, a, ha, rfl⟩⟩
  · refine ⟨.error e, (hear_eq_error_iff ..).2 hresult, j, (hear_eq_error_iff ..).2 hj, ?_⟩
    exact fun i hi => (refuses_eq_false_iff ..).1 (hbefore i hi)

/-- Along every run the panel stays aligned with its observers, each driven alone. -/
theorem aligned_alone (level : Level) (o : ∀ i, FieldVisitor (σ i)) (s : ∀ i, σ i)
    (ms : List Message) :
    Aligned ((panel level o).after (.start s) ms) (alone level o s ms) := by
  induction ms using List.reverseRecOn with
  | nil =>
    have hstart : ∀ j, alone level o s [] j = .start (s j) := fun j => by
      rw [alone, delivered, List.sublist_nil.1 (reaching_sublist o s [] _)]
      rfl
    exact ⟨funext fun j => by rw [hstart]; rfl, .inl rfl⟩
  | append_singleton ms m ih =>
    have hheard : alone level o s (ms ++ [m]) =
        heardBy level o ((panel level o).after (.start s) ms) (alone level o s ms) m :=
      funext fun j => alone_append_singleton level o s ms m j
    rw [hheard, after_append]
    exact ih.hear m

/-- What comes of a message that does not get to the observers. -/
def Message.stopped : Message → Option Answer
  | .field _ => some (.error barred)
  | .element _ => none

/-- Every observer of a list ends as if driven alone by the messages that got to the list and that
no observer before it refused, once each and in their order. And every further message that gets to
the list is answered as the observers together answer it in the state they are in: it is accepted
if none of them refuses it, and otherwise fails as the first that does. For a message to the
annotation visitor at hand, those that handed none out have no answer to give. -/
theorem panel_isolated (level : Level) (o : ∀ i, FieldVisitor (σ i)) (s : ∀ i, σ i)
    (ms : List Message) :
    (∀ j, ((panel level o).after (.start s) ms).state j = (alone level o s ms j).state) ∧
    (∀ j, (reaching o s ((panel level o).delivered level (.start s) ms) j).Sublist ms) ∧
    ∀ m,
      GetsThrough level ((panel level o).after (.start s) ms) m ∧
          (∃ answer, ((panel level o).hear ((panel level o).after (.start s) ms) m).1 = some answer ∧
            Verdict (fun j => ((o j).hear (alone level o s ms j) m).1) answer) ∨
        ¬GetsThrough level ((panel level o).after (.start s) ms) m ∧
          ((panel level o).hear ((panel level o).after (.start s) ms) m).1 = m.stopped := by
  have haligned := aligned_alone level o s ms
  refine ⟨fun j => congrFun haligned.state j, fun j => ?_, fun m => ?_⟩
  · exact (reaching_sublist ..).trans (delivered_sublist ..)
  · by_cases hgets : GetsThrough level ((panel level o).after (.start s) ms) m
    · exact .inl ⟨hgets, verdict_hear_panel haligned hgets⟩
    · refine .inr ⟨hgets, ?_⟩
      rw [hear_panel_of_not_getsThrough hgets]
      cases m <;> rfl

end

end FieldVisitor

end ClassUnit
