import ClassUnit.Proofs.Class.Log

/-! # Replays that are refused

A replay ends with the first refusal, which it passes on. What it delivers until then is what it
delivers to the same visitor if that one refuses nothing, cut after the refused call. A replay that
is accepted leaves nothing open (`replay_fails_fast`).

The three runs are compared action by action: on the visitor itself, on the visitor with a log, and
on one that indulges it, with a log too (`Delivers`). Since actions are put together from calls,
sequences and loops everywhere, a replay of any kind is one step for each part of it. -/

namespace ClassUnit

open ClassVisitor (Message)

variable {σ α β : Type}

/-! ## Indulgence -/

namespace Run

/-- The request is never refused, nor is anything of what is handed out for it. -/
def Lenient (L : α → Prop) (w : Visit σ (Option α)) : Prop :=
  ∀ s, ∃ handed s', w.exec s = (.ok handed, s') ∧ ∀ a ∈ handed, L a

/-- The request `w` is never refused, and comes to the same as `x` where that is not refused. -/
structure Indulges (L : α → Prop) (I : α → α → Prop) (w x : Visit σ (Option α)) : Prop where
  lenient : w.Lenient L
  same : ∀ s handed s', x.exec s = (.ok handed, s') →
    ∃ handed', w.exec s = (.ok handed', s') ∧ Option.Rel I handed' handed

variable {L : α → Prop} {I : α → α → Prop} {w x : Visit σ (Option α)}

theorem Lenient.indulges (hself : ∀ a, L a → I a a) (h : w.Lenient L) : w.Indulges L I w := by
  refine ⟨h, fun s handed s' hexec => ⟨handed, hexec, ?_⟩⟩
  obtain ⟨_, _, hexec', hhanded⟩ := h s
  cases hexec.symm.trans hexec'
  cases handed with
  | none => exact .none
  | some a => exact .some (hself a (hhanded a rfl))

/-- Overlooks a refusal. -/
def indulged (fallback : α) (x : Visit σ α) : Visit σ α :=
  ExceptT.mk fun s =>
    let (result, s) := x.exec s
    (.ok (result.toOption.getD fallback), s)

theorem exec_indulged (fallback : α) (x : Visit σ α) (s : σ) :
    (x.indulged fallback).exec s =
      (.ok ((x.exec s).1.toOption.getD fallback), (x.exec s).2) := rfl

/-- A refusal is overlooked, and whatever is handed out overlooks refusals too. -/
theorem Indulges.of_exec {f : α → α} (hL : ∀ a, L (f a)) (hI : ∀ a, I (f a) a)
    (hw : ∀ s, w.exec s =
      (.ok (((x.exec s).1.toOption.getD none).map f), (x.exec s).2)) : w.Indulges L I x := by
  constructor
  · intro s
    refine ⟨_, _, hw s, fun a ha => ?_⟩
    obtain ⟨b, -, rfl⟩ := Option.map_eq_some_iff.1 ha
    exact hL b
  · intro s handed s' hx
    refine ⟨handed.map f, by rw [hw, hx]; rfl, ?_⟩
    cases handed with
    | none => exact .none
    | some a => exact .some (hI a)

end Run

namespace AnnotationVisitor

/-- It refuses nothing. -/
def Lenient (w : AnnotationVisitor σ) : Prop := ∀ r s, ∃ s', (w.ask r).exec s = (.ok (), s')

/-- It refuses nothing, and does the same as `v` as long as `v` does not refuse. -/
def Indulges (w v : AnnotationVisitor σ) : Prop :=
  w.Lenient ∧ ∀ r s s', (v.ask r).exec s = (.ok (), s') → (w.ask r).exec s = (.ok (), s')

theorem Lenient.indulges {w : AnnotationVisitor σ} (h : w.Lenient) : w.Indulges w :=
  ⟨h, fun _ _ _ h => h⟩

def indulged (v : AnnotationVisitor σ) : AnnotationVisitor σ where
  visit e := (v.visit e).indulged ()
  finish := v.finish.indulged ()

theorem ask_indulged (v : AnnotationVisitor σ) (r : Request) :
    v.indulged.ask r = (v.ask r).indulged () := by
  cases r <;> rfl

theorem indulged_indulges (v : AnnotationVisitor σ) : v.indulged.Indulges v := by
  constructor
  · intro r s
    rw [ask_indulged, Run.exec_indulged]
    exact ⟨_, rfl⟩
  · intro r s s' h
    rw [ask_indulged, Run.exec_indulged, h]

end AnnotationVisitor

namespace FieldVisitor

/-- It refuses nothing, nor does anything that it hands out. -/
def Lenient (w : FieldVisitor σ) : Prop := ∀ r, (w.ask r).Lenient AnnotationVisitor.Lenient

/-- It refuses nothing, and does the same as `v` as long as `v` does not refuse. -/
def Indulges (w v : FieldVisitor σ) : Prop :=
  ∀ r, (w.ask r).Indulges AnnotationVisitor.Lenient AnnotationVisitor.Indulges (v.ask r)

theorem Lenient.indulges {w : FieldVisitor σ} (h : w.Lenient) : w.Indulges w :=
  fun r => Run.Lenient.indulges (fun _ => (·.indulges)) (h r)

/-- Nothing is handed out for what would have been refused. -/
def indulged (v : FieldVisitor σ) : FieldVisitor σ where
  level := v.level
  annotate descriptor visible :=
    Option.map (·.indulged) <$> (v.annotate descriptor visible).indulged none
  annotateType target descriptor visible :=
    Option.map (·.indulged) <$> (v.annotateType target descriptor visible).indulged none
  attach a := (v.attach a).indulged ()
  finish := v.finish.indulged ()

theorem exec_ask_indulged (v : FieldVisitor σ) (r : Request) (s : σ) :
    (v.indulged.ask r).exec s =
      (.ok ((((v.ask r).exec s).1.toOption.getD none).map (·.indulged)), ((v.ask r).exec s).2) := by
  cases r with
  | annotate | annotateType => exact Run.exec_map _ _ _
  | attach a =>
    simp only [ask, indulged, Run.exec_map, Run.exec_indulged]
    rcases (v.attach a).exec s with ⟨_ | _, _⟩ <;> rfl
  | finish =>
    simp only [ask, indulged, Run.exec_map, Run.exec_indulged]
    rcases v.finish.exec s with ⟨_ | _, _⟩ <;> rfl

theorem indulged_indulges (v : FieldVisitor σ) : v.indulged.Indulges v :=
  fun r => .of_exec (·.indulged_indulges.1) (·.indulged_indulges) (v.exec_ask_indulged r)

end FieldVisitor

namespace ClassVisitor

/-- It refuses nothing, and does the same as `v` as long as `v` does not refuse. -/
def Indulges (w v : ClassVisitor σ) : Prop :=
  ∀ r, (w.ask r).Indulges FieldVisitor.Lenient FieldVisitor.Indulges (v.ask r)

/-- Nothing is handed out for what would have been refused. -/
def indulged (v : ClassVisitor σ) : ClassVisitor σ where
  level := v.level
  header h := (v.header h).indulged ()
  field h := Option.map (·.indulged) <$> (v.field h).indulged none
  method h := (v.method h).indulged ()
  finish := v.finish.indulged ()

theorem exec_ask_indulged (v : ClassVisitor σ) (r : Request) (s : σ) :
    (v.indulged.ask r).exec s =
      (.ok ((((v.ask r).exec s).1.toOption.getD none).map (·.indulged)), ((v.ask r).exec s).2) := by
  cases r with
  | header h =>
    simp only [ask, indulged, Run.exec_map, Run.exec_indulged]
    rcases (v.header h).exec s with ⟨_ | _, _⟩ <;> rfl
  | field h => exact Run.exec_map _ _ _
  | method h =>
    simp only [ask, indulged, Run.exec_map, Run.exec_indulged]
    rcases (v.method h).exec s with ⟨_ | _, _⟩ <;> rfl
  | finish =>
    simp only [ask, indulged, Run.exec_map, Run.exec_indulged]
    rcases v.finish.exec s with ⟨_ | _, _⟩ <;> rfl

theorem indulged_indulges (v : ClassVisitor σ) : v.indulged.Indulges v :=
  fun r => .of_exec (fun f r' => (f.indulged_indulges r').lenient) (·.indulged_indulges)
    (v.exec_ask_indulged r)

end ClassVisitor

/-! ## Three runs -/

/-- The action is accepted whatever the state is, and only adds to the log. -/
def Run.Grows (z : Visit (Log × σ) Unit) : Prop :=
  ∀ log s, ∃ added s', z.exec (log, s) = (.ok (), log ++ added, s')

/-- What comes of an action `x` on a visitor, of `y` on that visitor with a log, and of `z` on a
visitor with a log that indulges it. The log is not noticed. Where the action is accepted, the
indulgent visitor is sent the same; where it is refused, the call is the first and the last that is,
and the indulgent visitor is sent the same up to that call. -/
structure Delivers (visitor : Nat) (P : Nat → Log → Prop) (x : Visit σ Unit)
    (y z : Visit (Log × σ) Unit) : Prop where
  grows : z.Grows
  ok : ∀ log s s', visitor ≤ log.length → x.exec s = (.ok (), s') →
    ∃ added : Log, P log.length added ∧ (∀ e ∈ added, e.Accepted) ∧
      y.exec (log, s) = (.ok (), log ++ added, s') ∧ z.exec (log, s) = (.ok (), log ++ added, s')
  error : ∀ log s e s', visitor ≤ log.length → x.exec s = (.error e, s') →
    ∃ before receiver call handsOut rest s'', (∀ e ∈ before, Entry.Accepted e) ∧
      y.exec (log, s) = (.error e, log ++ (before ++ [⟨receiver, call, .error e⟩]), s') ∧
      z.exec (log, s) = (.ok (), log ++ (before ++ ⟨receiver, call, .ok handsOut⟩ :: rest), s'')

/-- What the rounds of a loop add, one after the other, to a log that begins after so many calls. -/
def InTurn (P : β → Nat → Log → Prop) : List β → Nat → Log → Prop
  | [], _, log => log = []
  | b :: list, start, log =>
    ∃ first later, log = first ++ later ∧ P b start first ∧
      InTurn P list (start + first.length) later

theorem Run.Grows.append {z z' : Visit (Log × σ) Unit} (h : z.Grows) (h' : z'.Grows) :
    Run.Grows (do z; z') := by
  intro log s
  obtain ⟨added, s', hz⟩ := h log s
  obtain ⟨added', s'', hz'⟩ := h' (log ++ added) s'
  refine ⟨added ++ added', s'', ?_⟩
  rw [Run.exec_bind_of_ok hz, ← List.append_assoc]
  exact hz'

namespace Delivers

variable {visitor : Nat} {P Q R : Nat → Log → Prop} {x x' : Visit σ Unit}
  {y y' z z' : Visit (Log × σ) Unit}

/-- One action after another. Where the first is refused, the second is left out, and only the
indulgent visitor goes on with it. -/
theorem append (hlogs : ∀ start log log', visitor ≤ start → P start log →
      Q (start + log.length) log' → R start (log ++ log'))
    (h : Delivers visitor P x y z) (h' : Delivers visitor Q x' y' z') :
    Delivers visitor R (do x; x') (do y; y') (do z; z') := by
  constructor
  case grows => exact h.grows.append h'.grows
  case ok =>
    intro log s s'' hlog hexec
    rcases hx : x.exec s with ⟨_ | _, s'⟩
    · rw [Run.exec_bind_of_error hx] at hexec
      cases hexec
    · rw [Run.exec_bind_of_ok hx] at hexec
      obtain ⟨added, hP, haccepted, hy, hz⟩ := h.ok log s s' hlog hx
      obtain ⟨added', hQ, haccepted', hy', hz'⟩ :=
        h'.ok (log ++ added) s' s'' (by rw [List.length_append]; omega) hexec
      rw [List.length_append] at hQ
      rw [List.append_assoc] at hy' hz'
      refine ⟨added ++ added', hlogs _ _ _ hlog hP hQ, ?_, ?_, ?_⟩
      · exact List.forall_mem_append.2 ⟨haccepted, haccepted'⟩
      · rw [Run.exec_bind_of_ok hy, hy']
      · rw [Run.exec_bind_of_ok hz, hz']
  case error =>
    intro log s e s'' hlog hexec
    rcases hx : x.exec s with ⟨_ | _, s'⟩
    · rw [Run.exec_bind_of_error hx] at hexec
      cases hexec
      obtain ⟨before, receiver, call, handsOut, rest, s₁, haccepted, hy, hz⟩ :=
        h.error log s e s'' hlog hx
      obtain ⟨more, s₂, hz'⟩ :=
        h'.grows (log ++ (before ++ ⟨receiver, call, .ok handsOut⟩ :: rest)) s₁
      refine ⟨before, receiver, call, handsOut, rest ++ more, s₂, haccepted, ?_, ?_⟩
      · rw [Run.exec_bind_of_error hy]
      · rw [Run.exec_bind_of_ok hz, hz']
        simp
    · rw [Run.exec_bind_of_ok hx] at hexec
      obtain ⟨added, -, haccepted, hy, hz⟩ := h.ok log s s' hlog hx
      obtain ⟨before, receiver, call, handsOut, rest, s₁, haccepted', hy', hz'⟩ :=
        h'.error (log ++ added) s' e s'' (by rw [List.length_append]; omega) hexec
      refine ⟨added ++ before, receiver, call, handsOut, rest, s₁, ?_, ?_, ?_⟩
      · exact List.forall_mem_append.2 ⟨haccepted, haccepted'⟩
      · rw [Run.exec_bind_of_ok hy, hy']
        simp
      · rw [Run.exec_bind_of_ok hz, hz']
        simp

/-- A loop adds what its rounds add. -/
theorem forM_inTurn {P : β → Nat → Log → Prop} {f : β → Visit σ Unit}
    {g k : β → Visit (Log × σ) Unit} (h : ∀ b, Delivers visitor (P b) (f b) (g b) (k b))
    (list : List β) : Delivers visitor (InTurn P list) (list.forM f) (list.forM g) (list.forM k) := by
  induction list with
  | nil =>
    constructor
    case grows => exact fun log s => ⟨[], s, by rw [List.append_nil]; rfl⟩
    case ok =>
      rintro log s _ - ⟨⟩
      refine ⟨[], rfl, List.forall_mem_nil _, ?_⟩
      rw [List.append_nil]
      exact ⟨rfl, rfl⟩
    case error =>
      rintro log s e s' - ⟨⟩
  | cons b list ih =>
    simp only [List.forM_eq_forM] at ih ⊢
    simp only [List.forM_cons]
    exact (h b).append (fun _ log log' _ hlog hlog' => ⟨log, log', rfl, hlog, hlog'⟩) ih

theorem weaken (h : Delivers visitor P x y z)
    (hPQ : ∀ start log, visitor ≤ start → P start log → Q start log) :
    Delivers visitor Q x y z := by
  refine ⟨h.grows, fun log s s' hlog hx => ?_, h.error⟩
  obtain ⟨added, hP, hadded⟩ := h.ok log s s' hlog hx
  exact ⟨added, hPQ _ _ hlog hP, hadded⟩

theorem forM {f : β → Visit σ Unit} {g k : β → Visit (Log × σ) Unit}
    (hnil : ∀ start, P start [])
    (hlogs : ∀ start log log', visitor ≤ start → P start log →
      P (start + log.length) log' → P start (log ++ log'))
    (h : ∀ b, Delivers visitor P (f b) (g b) (k b)) (list : List β) :
    Delivers visitor P (list.forM f) (list.forM g) (list.forM k) := by
  refine (forM_inTurn h list).weaken fun start log hstart hlog => ?_
  induction list generalizing start log with
  | nil => exact hlog ▸ hnil start
  | cons b list ih =>
    obtain ⟨first, later, rfl, hfirst, hlater⟩ := hlog
    exact hlogs _ _ _ hstart hfirst (ih _ _ (Nat.le_add_right_of_le hstart) hlater)

/-- One call that hands nothing out. -/
theorem entered {x w : Visit σ Unit} (call : Message)
    (hP : ∀ start, P start [⟨visitor, call, .ok false⟩])
    (hlenient : ∀ s, ∃ s', w.exec s = (.ok (), s'))
    (hsame : ∀ s s', x.exec s = (.ok (), s') → w.exec s = (.ok (), s')) :
    Delivers visitor P x (x.entered visitor call) (w.entered visitor call) := by
  constructor
  case grows =>
    intro log s
    obtain ⟨s', hw⟩ := hlenient s
    exact ⟨[⟨visitor, call, .ok false⟩], s', Run.exec_entered_of_ok log hw⟩
  case ok =>
    intro log s s' _ hx
    refine ⟨[⟨visitor, call, .ok false⟩], hP _, ?_, Run.exec_entered_of_ok log hx,
      Run.exec_entered_of_ok log (hsame s s' hx)⟩
    intro e he
    rw [List.mem_singleton.1 he]
    exact ⟨false, rfl⟩
  case error =>
    intro log s e s' _ hx
    obtain ⟨s'', hw⟩ := hlenient s
    exact ⟨[], visitor, call, false, [], s'', List.forall_mem_nil _,
      Run.exec_entered_of_error log hx, Run.exec_entered_of_ok log hw⟩

section
variable {log : Log} {s s' : σ} (entry : Entry)

/-- What an accepted visit adds to the call that it is for. -/
theorem ok_after (h : Delivers (log.length + 1) P x y z) (hx : x.exec s = (.ok (), s')) :
    ∃ added : Log, P (log.length + 1) added ∧ (∀ e ∈ added, e.Accepted) ∧
      y.exec (log ++ [entry], s) = (.ok (), log ++ entry :: added, s') ∧
      z.exec (log ++ [entry], s) = (.ok (), log ++ entry :: added, s') := by
  have hlength : (log ++ [entry]).length = log.length + 1 := List.length_append
  obtain ⟨added, hP, haccepted, hy, hz⟩ := h.ok (log ++ [entry]) s s' (Nat.le_of_eq hlength.symm) hx
  rw [hlength] at hP
  rw [List.append_assoc] at hy hz
  exact ⟨added, hP, haccepted, hy, hz⟩

/-- What a visit that is refused adds to the call that it is for. -/
theorem error_after {e : Error} (h : Delivers (log.length + 1) P x y z)
    (hx : x.exec s = (.error e, s')) :
    ∃ before receiver call handsOut rest s'', (∀ e ∈ before, Entry.Accepted e) ∧
      y.exec (log ++ [entry], s) =
        (.error e, log ++ (entry :: before ++ [⟨receiver, call, .error e⟩]), s') ∧
      z.exec (log ++ [entry], s) =
        (.ok (), log ++ (entry :: before ++ ⟨receiver, call, .ok handsOut⟩ :: rest), s'') := by
  have hlength : (log ++ [entry]).length = log.length + 1 := List.length_append
  obtain ⟨before, receiver, call, handsOut, rest, s'', haccepted, hy, hz⟩ :=
    h.error (log ++ [entry]) s e s' (Nat.le_of_eq hlength.symm) hx
  rw [List.append_assoc] at hy hz
  exact ⟨before, receiver, call, handsOut, rest, s'', haccepted, hy, hz⟩

end

/-- One call that may hand out a visitor, and then what is done with that one. -/
theorem handing_of {x w : Visit σ (Option α)} {L : α → Prop} {I : α → α → Prop}
    {enter : Nat → α → β} {body : Option α → Visit σ Unit}
    {body' : Option β → Visit (Log × σ) Unit} {call : Message} {B : Nat → Nat → Log → Prop}
    (hwithheld : ∀ start, P start [⟨visitor, call, .ok false⟩])
    (hhandedOut : ∀ start log, visitor ≤ start → B (start + 1) (start + 1) log →
      P start (⟨visitor, call, .ok true⟩ :: log))
    (hindulges : w.Indulges L I x)
    (hnone : body none = pure ()) (hnone' : body' none = pure ())
    (hself : ∀ a, L a → I a a)
    (hbody : ∀ i a a', I a' a →
      Delivers i (B i) (body (some a)) (body' (some (enter i a)))
        (body' (some (enter i a')))) :
    Delivers visitor P (x >>= body) (x.handing visitor call enter >>= body')
      (w.handing visitor call enter >>= body') := by
  have hgoes_on (handed : Option α) (hhanded : ∀ a ∈ handed, L a) (i : Nat) (log : Log)
      (s : σ) : ∃ added s', (body' (handed.map (enter i))).exec (log, s) =
        (.ok (), log ++ added, s') := by
    cases handed with
    | none =>
      rw [Option.map_none, hnone']
      exact ⟨[], s, by rw [List.append_nil]; rfl⟩
    | some a => exact (hbody i a a (hself a (hhanded a rfl))).grows log s
  constructor
  case grows =>
    intro log s
    obtain ⟨handed, s', hw, hhanded⟩ := hindulges.lenient s
    obtain ⟨added, s'', hadded⟩ := hgoes_on handed hhanded (log.length + 1)
      (log ++ [⟨visitor, call, .ok handed.isSome⟩]) s'
    refine ⟨⟨visitor, call, .ok handed.isSome⟩ :: added, s'', ?_⟩
    rw [Run.exec_bind_of_ok (Run.exec_handing_of_ok log hw), hadded]
    simp
  case ok =>
    intro log s s'' hlog hexec
    rcases hx : x.exec s with ⟨_ | handed, s'⟩
    · rw [Run.exec_bind_of_error hx] at hexec
      cases hexec
    · rw [Run.exec_bind_of_ok hx] at hexec
      obtain ⟨handed', hw, hrel⟩ := hindulges.same s handed s' hx
      rw [Run.exec_bind_of_ok (Run.exec_handing_of_ok log hx),
        Run.exec_bind_of_ok (Run.exec_handing_of_ok log hw)]
      cases hrel with
      | none =>
        rw [hnone] at hexec
        cases hexec
        refine ⟨[⟨visitor, call, .ok false⟩], hwithheld _, ?_, ?_, ?_⟩
        · intro e he
          rw [List.mem_singleton.1 he]
          exact ⟨false, rfl⟩
        · rw [Option.map_none, hnone']
          rfl
        · rw [Option.map_none, hnone']
          rfl
      | @some a' a ha =>
        obtain ⟨added, hB, haccepted, hy, hz⟩ :=
          (hbody (log.length + 1) a a' ha).ok_after ⟨visitor, call, .ok true⟩ hexec
        refine ⟨⟨visitor, call, .ok true⟩ :: added, hhandedOut _ _ hlog hB, ?_, hy, hz⟩
        exact List.forall_mem_cons.2 ⟨⟨true, rfl⟩, haccepted⟩
  case error =>
    intro log s e s'' hlog hexec
    rcases hx : x.exec s with ⟨_ | handed, s'⟩
    · rw [Run.exec_bind_of_error hx] at hexec
      cases hexec
      obtain ⟨handed', s₁, hw, hhanded⟩ := hindulges.lenient s
      obtain ⟨rest, s₂, hrest⟩ := hgoes_on handed' hhanded (log.length + 1)
        (log ++ [⟨visitor, call, .ok handed'.isSome⟩]) s₁
      refine ⟨[], visitor, call, handed'.isSome, rest, s₂, List.forall_mem_nil _, ?_, ?_⟩
      · rw [Run.exec_bind_of_error (Run.exec_handing_of_error log hx)]
        rfl
      · rw [Run.exec_bind_of_ok (Run.exec_handing_of_ok log hw), hrest, List.append_assoc]
        rfl
    · rw [Run.exec_bind_of_ok hx] at hexec
      obtain ⟨handed', hw, hrel⟩ := hindulges.same s handed s' hx
      rw [Run.exec_bind_of_ok (Run.exec_handing_of_ok log hx),
        Run.exec_bind_of_ok (Run.exec_handing_of_ok log hw)]
      cases hrel with
      | none =>
        rw [hnone] at hexec
        cases hexec
      | @some a' a ha =>
        obtain ⟨before, receiver, call', handsOut, rest, s₁, haccepted, hy, hz⟩ :=
          (hbody (log.length + 1) a a' ha).error_after ⟨visitor, call, .ok true⟩ hexec
        refine ⟨⟨visitor, call, .ok true⟩ :: before, receiver, call', handsOut, rest, s₁, ?_, hy,
          hz⟩
        exact List.forall_mem_cons.2 ⟨⟨true, rfl⟩, haccepted⟩

/-- One call that may hand out a visitor, and then the whole visit of that one. -/
theorem handing {x w : Visit σ (Option α)} {L : α → Prop} {I : α → α → Prop}
    {enter : Nat → α → β} {body : Option α → Visit σ Unit}
    {body' : Option β → Visit (Log × σ) Unit} {call : Message} (hcall : ¬call.IsEnd)
    (hindulges : w.Indulges L I x)
    (hnone : body none = pure ()) (hnone' : body' none = pure ())
    (hself : ∀ a, L a → I a a)
    (hbody : ∀ i a a', I a' a →
      Delivers i (Whole i) (body (some a)) (body' (some (enter i a)))
        (body' (some (enter i a')))) :
    Delivers visitor (Busy visitor) (x >>= body) (x.handing visitor call enter >>= body')
      (w.handing visitor call enter >>= body') :=
  .handing_of (fun _ => .single hcall) (fun _ _ hstart => .handing hstart hcall) hindulges hnone
    hnone' hself hbody

/-- One of the calls that never hand anything out. -/
theorem silent {x w : Visit σ Unit} {L : α → Prop} {I : α → α → Prop} {call : Message}
    (hP : ∀ start, P start [⟨visitor, call, .ok false⟩])
    (hindulges : Run.Indulges L I ((fun _ => none) <$> w) ((fun _ => none) <$> x)) :
    Delivers visitor P x (x.entered visitor call) (w.entered visitor call) := by
  have hresult {u : Visit σ Unit} {s s' : σ} {handed : Option α}
      (h : ((fun _ => none) <$> u).exec s = (.ok handed, s')) : u.exec s = (.ok (), s') := by
    rw [Run.exec_map] at h
    rcases hu : u.exec s with ⟨_ | _, _⟩ <;> rw [hu] at h <;> cases h
    rfl
  refine entered call hP (fun s => ?_) fun s s' hx => ?_
  · obtain ⟨_, s', hw, -⟩ := hindulges.lenient s
    exact ⟨s', hresult hw⟩
  · obtain ⟨_, hw, -⟩ := hindulges.same s none s' (by rw [Run.exec_map, hx]; rfl)
    exact hresult hw

/-- Whoever begins with an empty log does what is done without one. -/
theorem unnoticed (h : Delivers 0 P x y z) (s : σ) :
    (y.exec ([], s)).1 = (x.exec s).1 ∧ (y.exec ([], s)).2.2 = (x.exec s).2 := by
  rcases hx : x.exec s with ⟨e | _, s'⟩
  · obtain ⟨before, receiver, call, handsOut, rest, s'', -, hy, -⟩ :=
      h.error [] s e s' (Nat.zero_le _) hx
    rw [hy]
    exact ⟨rfl, rfl⟩
  · obtain ⟨added, -, -, hy, -⟩ := h.ok [] s s' (Nat.zero_le _) hx
    rw [hy]
    exact ⟨rfl, rfl⟩

theorem mono (h : Delivers visitor P x y z) (hPQ : ∀ start log, P start log → Q start log) :
    Delivers visitor Q x y z :=
  h.weaken fun start log _ => hPQ start log

/-- Going on with a visit, and then to its end. -/
theorem whole (h : Delivers visitor (Busy visitor) x y z)
    (h' : Delivers visitor (Whole visitor) x' y' z') :
    Delivers visitor (Whole visitor) (do x; x') (do y; y') (do z; z') :=
  h.append (fun _ _ _ => .append) h'

theorem busy_forM {f : β → Visit σ Unit} {g k : β → Visit (Log × σ) Unit}
    (h : ∀ b, Delivers visitor (Busy visitor) (f b) (g b) (k b)) (list : List β) :
    Delivers visitor (Busy visitor) (list.forM f) (list.forM g) (list.forM k) :=
  .forM (fun _ => .nil) (fun _ _ _ => .append) h list

end Delivers

/-! ## Replays -/

theorem AnnotationNode.delivers {w v : AnnotationVisitor σ} (h : w.Indulges v) (visitor : Nat)
    (n : AnnotationNode) :
    Delivers visitor (Whole visitor) (n.replay v) (n.replay (v.entered visitor))
      (n.replay (w.entered visitor)) := by
  have hvisit (e : Element) :
      Delivers visitor (Busy visitor) (v.visit e) ((v.entered visitor).visit e)
        ((w.entered visitor).visit e) :=
    .entered _ (fun _ => .single (by simp [Message.IsEnd])) (h.1 (.visit e)) (h.2 (.visit e))
  have hfinish :
      Delivers visitor (Whole visitor) v.finish (v.entered visitor).finish
        (w.entered visitor).finish :=
    .entered _ (fun _ => .single (by simp [Message.IsEnd])) (h.1 .finish) (h.2 .finish)
  exact (Delivers.busy_forM hvisit n.elements).whole hfinish

namespace FieldNode

variable {w v : FieldVisitor σ}

theorem delivers (h : w.Indulges v) (visitor : Nat) (n : FieldNode) :
    Delivers visitor (Whole visitor) (n.replay v) (n.replay (v.entered visitor))
      (n.replay (w.entered visitor)) := by
  have hannotation (a : AnnotationNode) :
      Delivers visitor (Busy visitor)
        (do replayOnto a (← v.annotate a.descriptor a.visible))
        (do replayOnto a (← (v.entered visitor).annotate a.descriptor a.visible))
        (do replayOnto a (← (w.entered visitor).annotate a.descriptor a.visible)) :=
    .handing (by simp [Message.IsEnd]) (h (.annotate a.descriptor a.visible)) rfl rfl
      (fun _ => (·.indulges)) fun i _ _ hindulges => a.delivers hindulges i
  have htype (a : TypeAnnotationNode) :
      Delivers visitor (Busy visitor)
        (do replayOnto a.node (← v.annotateType a.target a.node.descriptor a.node.visible))
        (do replayOnto a.node
              (← (v.entered visitor).annotateType a.target a.node.descriptor a.node.visible))
        (do replayOnto a.node
              (← (w.entered visitor).annotateType a.target a.node.descriptor a.node.visible)) :=
    .handing (by simp [Message.IsEnd])
      (h (.annotateType a.target a.node.descriptor a.node.visible)) rfl rfl
      (fun _ => (·.indulges)) fun i _ _ hindulges => a.node.delivers hindulges i
  have hattribute (a : Attribute) :
      Delivers visitor (Busy visitor) (v.attach a) ((v.entered visitor).attach a)
        ((w.entered visitor).attach a) :=
    .silent (fun _ => .single (by simp [Message.IsEnd])) (h (.attach a))
  have hfinish :
      Delivers visitor (Whole visitor) v.finish (v.entered visitor).finish
        (w.entered visitor).finish :=
    .silent (fun _ => .single (by simp [Message.IsEnd])) (h .finish)
  refine (Delivers.busy_forM hannotation n.annotations).whole ?_
  refine (Delivers.busy_forM htype n.typeAnnotations).whole ?_
  exact (Delivers.busy_forM hattribute n.attributes).whole hfinish

theorem delivers_all (h : w.Indulges v) (nodes : List FieldNode) :
    Delivers 0 (Tidy 0) (replayAll nodes v) (replayAll nodes (v.entered 0))
      (replayAll nodes (w.entered 0)) :=
  .forM (fun _ => .nil) (fun _ _ _ => .append)
    (fun n => (n.delivers h 0).mono fun _ _ => (·.toTidy)) nodes

end FieldNode

namespace ClassNode

variable {w v : ClassVisitor σ}

theorem delivers (h : w.Indulges v) (visitor : Nat) (c : ClassNode) :
    Delivers visitor (Whole visitor) (c.replay v) (c.replay (v.entered visitor))
      (c.replay (w.entered visitor)) := by
  have hheader :
      Delivers visitor (Busy visitor) (v.header c.header) ((v.entered visitor).header c.header)
        ((w.entered visitor).header c.header) :=
    .silent (fun _ => .single (by simp [Message.IsEnd])) (h (.header c.header))
  have hfield (f : FieldNode) :
      Delivers visitor (Busy visitor)
        (do replayOnto f (← v.field f.header))
        (do replayOnto f (← (v.entered visitor).field f.header))
        (do replayOnto f (← (w.entered visitor).field f.header)) :=
    .handing (by simp [Message.IsEnd]) (h (.field f.header)) rfl rfl
      (fun _ => (·.indulges)) fun i _ _ hindulges => f.delivers hindulges i
  have hmethod (m : MethodHeader) :
      Delivers visitor (Busy visitor) (v.method m) ((v.entered visitor).method m)
        ((w.entered visitor).method m) :=
    .silent (fun _ => .single (by simp [Message.IsEnd])) (h (.method m))
  have hfinish :
      Delivers visitor (Whole visitor) v.finish (v.entered visitor).finish
        (w.entered visitor).finish :=
    .silent (fun _ => .single (by simp [Message.IsEnd])) (h .finish)
  refine hheader.whole ?_
  refine (Delivers.busy_forM hfield c.fields).whole ?_
  exact (Delivers.busy_forM hmethod c.methods).whole hfinish

theorem delivers_all (h : w.Indulges v) (nodes : List ClassNode) :
    Delivers 0 (Tidy 0) (replayAll nodes v) (replayAll nodes (v.entered 0))
      (replayAll nodes (w.entered 0)) :=
  .forM (fun _ => .nil) (fun _ _ _ => .append)
    (fun c => (c.delivers h 0).mono fun _ _ => (·.toTidy)) nodes

end ClassNode

/-! ## First refusals -/

/-- Seen from outside, with new logs: `x` is a drive of a visitor, `y` of that visitor with a log,
and `z` of one that indulges it, with a log. -/
structure FailsFast (x : Visit σ Unit) (y z : Visit (Log × σ) Unit) : Prop where
  /-- The log is not noticed. -/
  unnoticed : ∀ s, (y.exec ([], s)).1 = (x.exec s).1 ∧ (y.exec ([], s)).2.2 = (x.exec s).2
  indulged : ∀ s, (z.exec ([], s)).1 = .ok ()
  /-- Nothing was refused, and whoever was handed out was ended. -/
  accepted : ∀ s, (x.exec s).1 = .ok () →
    (y.exec ([], s)).2 = (z.exec ([], s)).2 ∧
      (∀ e ∈ (y.exec ([], s)).2.1, e.Accepted) ∧ ClosedAfter 0 (y.exec ([], s)).2.1
  /-- The first refusal is passed on, and nothing is delivered after it. -/
  refused : ∀ s e, (x.exec s).1 = .error e →
    ∃ before receiver call handsOut rest, (∀ e ∈ before, Entry.Accepted e) ∧
      (y.exec ([], s)).2.1 = before ++ [⟨receiver, call, .error e⟩] ∧
      (z.exec ([], s)).2.1 = before ++ ⟨receiver, call, .ok handsOut⟩ :: rest

theorem Delivers.failsFast {x : Visit σ Unit} {y z : Visit (Log × σ) Unit}
    (h : Delivers 0 (Tidy 0) x y z) : FailsFast x y z := by
  constructor
  case unnoticed => exact h.unnoticed
  case indulged =>
    intro s
    obtain ⟨added, s', hz⟩ := h.grows [] s
    rw [hz]
  case accepted =>
    intro s hok
    rcases hx : x.exec s with ⟨_ | _, s'⟩ <;> rw [hx] at hok <;> cases hok
    obtain ⟨added, htidy, haccepted, hy, hz⟩ := h.ok [] s s' (Nat.zero_le _) hx
    rw [hy, hz]
    exact ⟨rfl, haccepted, htidy.closed⟩
  case refused =>
    intro s e herror
    rcases hx : x.exec s with ⟨_ | _, s'⟩ <;> rw [hx] at herror <;> cases herror
    obtain ⟨before, receiver, call, handsOut, rest, s'', haccepted, hy, hz⟩ :=
      h.error [] s e s' (Nat.zero_le _) hx
    rw [hy, hz]
    exact ⟨before, receiver, call, handsOut, rest, haccepted, rfl, rfl⟩

/-- A replay fails with the first refusal, having delivered what an indulgent visitor is sent up to
that call. There is an indulgent visitor for every one. -/
theorem replay_fails_fast :
    (∀ v : FieldVisitor σ, (∃ w : FieldVisitor σ, w.Indulges v) ∧
      ∀ w : FieldVisitor σ, w.Indulges v →
        (∀ n : FieldNode,
          FailsFast (n.replay v) (n.replay (v.entered 0)) (n.replay (w.entered 0))) ∧
        ∀ nodes : List FieldNode,
          FailsFast (FieldNode.replayAll nodes v) (FieldNode.replayAll nodes (v.entered 0))
            (FieldNode.replayAll nodes (w.entered 0))) ∧
    ∀ v : ClassVisitor σ, (∃ w : ClassVisitor σ, w.Indulges v) ∧
      ∀ w : ClassVisitor σ, w.Indulges v →
        (∀ c : ClassNode,
          FailsFast (c.replay v) (c.replay (v.entered 0)) (c.replay (w.entered 0))) ∧
        ∀ nodes : List ClassNode,
          FailsFast (ClassNode.replayAll nodes v) (ClassNode.replayAll nodes (v.entered 0))
            (ClassNode.replayAll nodes (w.entered 0)) := by
  constructor
  · intro v
    refine ⟨⟨_, v.indulged_indulges⟩, fun w h => ⟨fun n => ?_, fun nodes => ?_⟩⟩
    · exact ((n.delivers h 0).mono fun _ _ => (·.toTidy)).failsFast
    · exact (FieldNode.delivers_all h nodes).failsFast
  · intro v
    refine ⟨⟨_, v.indulged_indulges⟩, fun w h => ⟨fun c => ?_, fun nodes => ?_⟩⟩
    · exact ((c.delivers h 0).mono fun _ _ => (·.toTidy)).failsFast
    · exact (ClassNode.delivers_all h nodes).failsFast

/-- Takes annotations, but no attributes. -/
def plainOnly : FieldVisitor Unit where
  level := .asm7
  annotate _ _ := pure (some .silent)
  annotateType _ _ _ := pure none
  attach _ := throw (.unsupportedFeature "attributes" .asm7)
  finish := pure ()

/-- One annotation and two attributes, the first of which is refused. -/
def slotted : FieldNode where
  header := ⟨0, "x", "I", none⟩
  annotations := [{ descriptor := "LMark;", visible := true }]
  attributes := [⟨"Slot", []⟩, ⟨"Spare", []⟩]

theorem replay_fails_fast_slotted :
    plainOnly.indulged.Indulges plainOnly ∧
      FailsFast (slotted.replay plainOnly) (slotted.replay (plainOnly.entered 0))
        (slotted.replay (plainOnly.indulged.entered 0)) ∧
      ((slotted.replay (plainOnly.entered 0)).exec ([], ())).2.1 =
        [⟨0, .member (.field (.annotate "LMark;" true)), .ok true⟩,
          ⟨1, .member (.element .finish), .ok false⟩,
          ⟨0, .member (.field (.attach ⟨"Slot", []⟩)),
            .error (.unsupportedFeature "attributes" .asm7)⟩] := by
  have hindulges := plainOnly.indulged_indulges
  exact ⟨hindulges, (((replay_fails_fast.1 plainOnly).2 _ hindulges).1 slotted), rfl⟩

end ClassUnit
