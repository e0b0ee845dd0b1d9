import ClassUnit.Proofs.Class.Session

/-! # Logs of calls

To see what a drive delivers, each visitor enters the calls on it into a log that they share. A
visitor is known by a number there: the root has 0, and one that is handed out has the length of the
log by then. Entering calls changes nothing else.

The log of a finished visit nests. A visitor that was handed out is ended once, by the last call on
it, and the one that handed it out is not called until then (`ClosedAfter`). -/

namespace ClassUnit

open ClassVisitor (Message)

variable {ε σ α β : Type}

/-- The call ends a visit. -/
def ClassVisitor.Message.IsEnd (m : Message) : Prop :=
  m = .unit .finish ∨ m = .member (.field .finish) ∨ m = .member (.element .finish)

/-- A call on a visitor, and what it was answered with. -/
structure Entry where
  receiver : Nat
  call : Message
  answer : FieldVisitor.Answer

abbrev Log := List Entry

namespace Entry

def Accepted (x : Entry) : Prop := ∃ handsOut, x.answer = .ok handsOut

/-- The call ends the visit of this visitor. -/
def Ends (x : Entry) (visitor : Nat) : Prop := x.receiver = visitor ∧ x.call.IsEnd

end Entry

/-! ## Visitors that keep a log -/

/-- Enters a call that hands nothing out. -/
def Run.entered (receiver : Nat) (call : Message) (x : Visit σ Unit) : Visit (Log × σ) Unit :=
  ExceptT.mk fun (log, s) =>
    let (result, s) := x.exec s
    (result, log ++ [⟨receiver, call, result.map fun _ => false⟩], s)

/-- Enters a call that may hand out a visitor, and lets it keep the log under its number. -/
def Run.handing (receiver : Nat) (call : Message) (enter : Nat → α → β) (x : Visit σ (Option α)) :
    Visit (Log × σ) (Option β) :=
  ExceptT.mk fun (log, s) =>
    let (result, s) := x.exec s
    (result.map (Option.map (enter (log.length + 1))),
      log ++ [⟨receiver, call, result.map Option.isSome⟩], s)

section
variable {receiver : Nat} {call : Message} {s s' : σ} {e : Error} (log : Log)

theorem Run.exec_entered_of_ok {x : Visit σ Unit} (h : x.exec s = (.ok (), s')) :
    (x.entered receiver call).exec (log, s) =
      (.ok (), log ++ [⟨receiver, call, .ok false⟩], s') := by
  change ((x.exec s).1, log ++ [⟨receiver, call, (x.exec s).1.map _⟩], (x.exec s).2) = _
  rw [h]
  rfl

theorem Run.exec_entered_of_error {x : Visit σ Unit} (h : x.exec s = (.error e, s')) :
    (x.entered receiver call).exec (log, s) =
      (.error e, log ++ [⟨receiver, call, .error e⟩], s') := by
  change ((x.exec s).1, log ++ [⟨receiver, call, (x.exec s).1.map _⟩], (x.exec s).2) = _
  rw [h]
  rfl

variable {enter : Nat → α → β} {x : Visit σ (Option α)}

theorem Run.exec_handing_of_ok {handed : Option α} (h : x.exec s = (.ok handed, s')) :
    (x.handing receiver call enter).exec (log, s) =
      (.ok (handed.map (enter (log.length + 1))),
        log ++ [⟨receiver, call, .ok handed.isSome⟩], s') := by
  change ((x.exec s).1.map _, log ++ [⟨receiver, call, (x.exec s).1.map _⟩], (x.exec s).2) = _
  rw [h]
  rfl

theorem Run.exec_handing_of_error (h : x.exec s = (.error e, s')) :
    (x.handing receiver call enter).exec (log, s) =
      (.error e, log ++ [⟨receiver, call, .error e⟩], s') := by
  change ((x.exec s).1.map _, log ++ [⟨receiver, call, (x.exec s).1.map _⟩], (x.exec s).2) = _
  rw [h]
  rfl

end

def AnnotationVisitor.entered (receiver : Nat) (v : AnnotationVisitor σ) :
    AnnotationVisitor (Log × σ) where
  visit e := (v.visit e).entered receiver (.member (.element (.visit e)))
  finish := v.finish.entered receiver (.member (.element .finish))

def FieldVisitor.entered (receiver : Nat) (v : FieldVisitor σ) : FieldVisitor (Log × σ) where
  level := v.level
  annotate descriptor visible :=
    (v.annotate descriptor visible).handing receiver
      (.member (.field (.annotate descriptor visible))) AnnotationVisitor.entered
  annotateType target descriptor visible :=
    (v.annotateType target descriptor visible).handing receiver
      (.member (.field (.annotateType target descriptor visible))) AnnotationVisitor.entered
  attach a := (v.attach a).entered receiver (.member (.field (.attach a)))
  finish := v.finish.entered receiver (.member (.field .finish))

def ClassVisitor.entered (receiver : Nat) (v : ClassVisitor σ) : ClassVisitor (Log × σ) where
  level := v.level
  header h := (v.header h).entered receiver (.unit (.header h))
  field h := (v.field h).handing receiver (.unit (.field h)) FieldVisitor.entered
  method h := (v.method h).entered receiver (.unit (.method h))
  finish := v.finish.entered receiver (.unit .finish)

/-! ## Nesting -/

/-- In a log that begins after so many calls, whoever is handed out is ended once, by the last call
on it, and before there is another one on whom it came from. -/
def ClosedAfter (start : Nat) (log : Log) : Prop :=
  ∀ before x after, log = before ++ x :: after → x.answer = .ok true →
    ∃ visit last rest, after = visit ++ last :: rest ∧
      last.Ends (start + before.length + 1) ∧
      (∀ y ∈ visit, y.receiver ≠ x.receiver ∧ ¬y.Ends (start + before.length + 1)) ∧
      ∀ y ∈ rest, y.receiver ≠ start + before.length + 1

/-- What a visitor and those handed out by it are sent in a while. -/
structure Tidy (visitor start : Nat) (log : Log) : Prop where
  closed : ClosedAfter start log
  receivers : ∀ y ∈ log, y.receiver = visitor ∨ start < y.receiver

/-- The visitor is not ended in this while. -/
structure Busy (visitor start : Nat) (log : Log) : Prop extends Tidy visitor start log where
  unended : ∀ y ∈ log, ¬y.Ends visitor

/-- The visitor is ended in this while, by the last call. -/
structure Whole (visitor start : Nat) (log : Log) : Prop extends Tidy visitor start log where
  ends : ∃ visit last, log = visit ++ [last] ∧ last.Ends visitor ∧ ∀ y ∈ visit, ¬y.Ends visitor

section
variable {visitor start : Nat} {log log' : Log} {call : Message}

theorem Tidy.nil : Tidy visitor start [] := by
  constructor
  · intro before x after h
    simp at h
  · intro y hy
    cases hy

theorem Busy.nil : Busy visitor start [] := ⟨.nil, fun _ hy => absurd hy List.not_mem_nil⟩

/-- A call that hands nothing out. -/
theorem Tidy.single : Tidy visitor start [⟨visitor, call, .ok false⟩] := by
  constructor
  · intro before x after h hx
    obtain ⟨rfl, rfl, rfl⟩ : before = [] ∧ _ = x ∧ after = [] := by
      simpa [List.append_eq_cons_iff, eq_comm] using h
    cases hx
  · intro y hy
    rw [List.mem_singleton.1 hy]
    exact .inl rfl

theorem Busy.single (hcall : ¬call.IsEnd) : Busy visitor start [⟨visitor, call, .ok false⟩] := by
  refine ⟨.single, fun y hy hends => hcall ?_⟩
  rw [List.mem_singleton.1 hy] at hends
  exact hends.2

/-- Whoever was handed out in the first part is not called in the second. -/
theorem Tidy.append (hstart : visitor ≤ start) (h : Tidy visitor start log)
    (h' : Tidy visitor (start + log.length) log') : Tidy visitor start (log ++ log') := by
  constructor
  · intro before x after heq hx
    -- The call is in the second part, or it is the first one there, or it is in the first part.
    rcases List.append_eq_append_iff.1 heq with
      ⟨before', rfl, heq'⟩ | ⟨_ | ⟨x', after'⟩, hlog, heq'⟩
    · obtain ⟨visit, last, rest, hafter⟩ := h'.closed before' x after heq' hx
      rw [List.length_append, ← Nat.add_assoc]
      exact ⟨visit, last, rest, hafter⟩
    · obtain ⟨visit, last, rest, hafter⟩ := h'.closed [] x after heq'.symm hx
      rw [List.append_nil] at hlog
      subst hlog
      exact ⟨visit, last, rest, hafter⟩
    · obtain ⟨rfl, rfl⟩ := List.cons.inj heq'
      obtain ⟨visit, last, rest, rfl, hlast, hvisit, hrest⟩ := h.closed before x after' hlog hx
      refine ⟨visit, last, rest ++ log', by simp, hlast, hvisit, fun y hy => ?_⟩
      rcases List.mem_append.1 hy with hy | hy
      · exact hrest y hy
      · -- The second part calls this visitor, or one that was handed out later.
        have hlength := congrArg List.length hlog
        simp only [List.length_append, List.length_cons] at hlength
        have hreceiver := h'.receivers y hy
        omega
  · intro y hy
    rcases List.mem_append.1 hy with hy | hy
    · exact h.receivers y hy
    · have hreceiver := h'.receivers y hy
      omega

theorem Busy.append (hstart : visitor ≤ start) (h : Busy visitor start log)
    (h' : Busy visitor (start + log.length) log') : Busy visitor start (log ++ log') := by
  refine ⟨h.toTidy.append hstart h'.toTidy, fun y hy => ?_⟩
  rcases List.mem_append.1 hy with hy | hy
  · exact h.unended y hy
  · exact h'.unended y hy

theorem Whole.single (hcall : call.IsEnd) : Whole visitor start [⟨visitor, call, .ok false⟩] :=
  ⟨.single, [], _, rfl, ⟨rfl, hcall⟩, List.forall_mem_nil _⟩

theorem Whole.append (hstart : visitor ≤ start) (h : Busy visitor start log)
    (h' : Whole visitor (start + log.length) log') : Whole visitor start (log ++ log') := by
  obtain ⟨visit, last, rfl, hlast, hvisit⟩ := h'.ends
  refine ⟨h.toTidy.append hstart h'.toTidy, log ++ visit, last, by simp, hlast, ?_⟩
  exact List.forall_mem_append.2 ⟨h.unended, hvisit⟩

/-- A call that hands out a visitor, and the whole visit of that one. -/
theorem Busy.handing (hstart : visitor ≤ start) (hcall : ¬call.IsEnd)
    (h : Whole (start + 1) (start + 1) log) :
    Busy visitor start (⟨visitor, call, .ok true⟩ :: log) := by
  obtain ⟨⟨hclosed, hreceivers⟩, visit, last, rfl, hlast, hvisit⟩ := h
  have hbelow : ∀ y ∈ visit ++ [last], y.receiver ≠ visitor := fun y hy => by
    have hreceiver := hreceivers y hy
    omega
  refine ⟨⟨?_, ?_⟩, ?_⟩
  · rintro (_ | ⟨x', before⟩) x after heq hx
    · obtain ⟨rfl, rfl⟩ := List.cons.inj heq
      refine ⟨visit, last, [], rfl, hlast, fun y hy => ?_, fun y hy => absurd hy List.not_mem_nil⟩
      exact ⟨hbelow y (List.mem_append_left _ hy), hvisit y hy⟩
    · have hinner := hclosed before x after (List.cons.inj heq).2 hx
      rw [List.length_cons, ← Nat.add_assoc, Nat.add_right_comm start]
      exact hinner
  · intro y hy
    rcases List.mem_cons.1 hy with rfl | hy
    · exact .inl rfl
    · have hreceiver := hreceivers y hy
      omega
  · intro y hy hends
    rcases List.mem_cons.1 hy with rfl | hy
    · exact hcall hends.2
    · exact hbelow y hy hends.1

end

end ClassUnit
