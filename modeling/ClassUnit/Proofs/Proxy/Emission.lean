import ClassUnit.Proofs.Class.Delivery
import ClassUnit.Proofs.Proxy.Layout

/-! # Emission of proxy classes

The calls by which a proxy is emitted are planned by the proxy, but for the contents of the fields
that the visitor hands nothing out for (`ProxyClass.Calls`). The first refusal cuts the plan, and
strict order does not change it (`ProxyClass.emit_delivers`).

With the guard of strict order gone (`emitField_eq`), an emission is made of calls, sequences and
loops (`ProxyClass.deliver`). So it is compared part by part with one that nothing refuses, as
replays are. -/

namespace ClassUnit

variable {σ β : Type}

/-! ## Plans -/

/-- What becomes of planned calls: all of them are made, or those up to the first that is refused,
with whose error the run ends. -/
inductive CarriedOut (planned : Log) : Except Error Unit → Log → Prop
  | through : CarriedOut planned (.ok ()) planned
  | cut {before after : Log} {entry : Entry} (e : Error) (h : planned = before ++ entry :: after) :
    CarriedOut planned (.error e) (before ++ [{ entry with answer := .error e }])

/-- A plan that an indulgent visitor sees through is carried out on the one that it indulges. -/
theorem Delivers.carriedOut {P : Nat → Log → Prop} {x x' : Visit σ Unit}
    {y z : Visit (Log × σ) Unit} (h : Delivers 0 P x y z) (h' : Delivers 0 P x' z z) (s : σ) :
    ∃ planned, P 0 planned ∧ CarriedOut planned (y.exec ([], s)).1 (y.exec ([], s)).2.1 := by
  rcases hx : x.exec s with ⟨e | _, s'⟩
  · obtain ⟨before, receiver, call, handsOut, rest, s₁, -, hy, hz⟩ :=
      h.error [] s e s' (Nat.zero_le _) hx
    -- The indulgent visitor makes the whole plan.
    rcases hx' : x'.exec s with ⟨e' | _, s₂⟩
    · obtain ⟨_, _, _, _, _, _, -, hz', -⟩ := h'.error [] s e' s₂ (Nat.zero_le _) hx'
      cases hz.symm.trans hz'
    · obtain ⟨planned, hplanned, -, hz', -⟩ := h'.ok [] s s₂ (Nat.zero_le _) hx'
      have hlog : planned = before ++ ⟨receiver, call, .ok handsOut⟩ :: rest :=
        congrArg (·.2.1) (hz'.symm.trans hz)
      rw [hy]
      exact ⟨planned, hplanned, .cut e hlog⟩
  · obtain ⟨planned, hplanned, -, hy, -⟩ := h.ok [] s s' (Nat.zero_le _) hx
    rw [hy]
    exact ⟨planned, hplanned, .through⟩

theorem InTurn.eq_map {entry : β → Entry} {list : List β} {start : Nat} {log : Log}
    (h : InTurn (fun b _ log => log = [entry b]) list start log) : log = list.map entry := by
  induction list generalizing start log with
  | nil => exact h
  | cons b list ih =>
    obtain ⟨first, later, rfl, rfl, hlater⟩ := h
    rw [ih hlater]
    rfl

end ClassUnit

namespace ClassUnit.Proxy.ProxyClass

variable {σ τ : Type} {v w : ClassVisitor σ}

/-- The calls for the field of a callback, in a log that begins after so many calls. Where a visitor
is handed out for the field, it is given one attribute and ended. -/
inductive FieldCalls (b : Callback τ × Nat) (start : Nat) : Log → Prop
  | withheld : FieldCalls b start [⟨0, .unit (.field (fieldHeader b.2 b.1)), .ok false⟩]
  | handedOut : FieldCalls b start
      [⟨0, .unit (.field (fieldHeader b.2 b.1)), .ok true⟩,
        ⟨start + 1, .member (.field (.attach (callbackAttribute b.1))), .ok false⟩,
        ⟨start + 1, .member (.field .finish), .ok false⟩]

/-- A call on the visitor of the class that hands nothing out. -/
def plainCall (r : ClassVisitor.Request) : Entry := ⟨0, .unit r, .ok false⟩

def methodCalls (p : ProxyClass τ) : Log :=
  p.members.map fun member => plainCall (.method (methodHeader member.method))

/-- The calls by which the proxy is emitted: its header, a field for each callback, a method for
each member, and the end. -/
def Calls (p : ProxyClass τ) (start : Nat) (log : Log) : Prop :=
  ∃ fields, InTurn FieldCalls p.callbacks.zipIdx (start + 1) fields ∧
    log = plainCall (.header p.layout.header) ::
      (fields ++ (p.methodCalls ++ [plainCall .finish]))

/-! ## Delivery -/

/-- Emits the field of a callback, without regard to order. -/
def deliverField (v : ClassVisitor σ) (b : Callback τ × Nat) : Visit σ Unit :=
  v.field (fieldHeader b.2 b.1) >>= (·.elim (pure ()) (emitContents b.1))

/-- Emits the proxy, without regard to levels and order. -/
def deliver (p : ProxyClass τ) (v : ClassVisitor σ) : Visit σ Unit := do
  v.header p.layout.header
  p.callbacks.zipIdx.forM (deliverField v)
  p.members.forM fun member => v.method (methodHeader member.method)
  v.finish

/-- The same proxy, with strict order asked for or not. -/
def withStrictOrder (p : ProxyClass τ) (strict : Bool) : ProxyClass τ :=
  { p with config := { p.config with strictOrder := strict } }

theorem emit_eq (p : ProxyClass τ) (v : ClassVisitor σ) :
    p.emit v = (do Run.of (v.level.require p.config.level "proxy synthesis"); p.deliver v) := by
  simp only [emit, emitField_eq]
  rfl

theorem emit_withStrictOrder (p : ProxyClass τ) (strict : Bool) (v : ClassVisitor σ) :
    (p.withStrictOrder strict).emit v = p.emit v := by
  rw [emit_eq, emit_eq]
  rfl

/-- A visitor of too low a level is not called. -/
theorem emit_of_lt {p : ProxyClass τ} (h : v.level < p.config.level) :
    p.emit v = Run.of (.error (.unsupportedFeature "proxy synthesis" p.config.level)) := by
  rw [emit_eq, Level.require, if_pos h]
  rfl

theorem emit_of_not_lt {p : ProxyClass τ} (h : ¬v.level < p.config.level) :
    p.emit v = p.deliver v := by
  rw [emit_eq, Level.require, if_neg h]
  rfl

theorem delivers_contents {f g : FieldVisitor σ} (h : g.Indulges f) (visitor : Nat)
    (callback : Callback τ) :
    Delivers visitor
      (fun _ log => log =
        [⟨visitor, .member (.field (.attach (callbackAttribute callback))), .ok false⟩,
          ⟨visitor, .member (.field .finish), .ok false⟩])
      (emitContents callback f) (emitContents callback (f.entered visitor))
      (emitContents callback (g.entered visitor)) := by
  have hattach (a : Attribute) :
      Delivers visitor (fun _ log => log = [⟨visitor, .member (.field (.attach a)), .ok false⟩])
        (f.attach a) ((f.entered visitor).attach a) ((g.entered visitor).attach a) :=
    .silent (fun _ => rfl) (h (.attach a))
  have hfinish :
      Delivers visitor (fun _ log => log = [⟨visitor, .member (.field .finish), .ok false⟩])
        f.finish (f.entered visitor).finish (g.entered visitor).finish :=
    .silent (fun _ => rfl) (h .finish)
  refine (hattach (callbackAttribute callback)).append ?_ hfinish
  rintro start _ _ - rfl rfl
  rfl

theorem delivers_field (h : w.Indulges v) (b : Callback τ × Nat) :
    Delivers 0 (FieldCalls b) (deliverField v b) (deliverField (v.entered 0) b)
      (deliverField (w.entered 0) b) := by
  refine .handing_of (fun _ => .withheld) ?_ (h (.field (fieldHeader b.2 b.1))) rfl rfl
    (fun _ => (·.indulges)) fun i f g hindulges => delivers_contents hindulges i b.1
  rintro start _ - rfl
  exact .handedOut

/-- The calls are those that are planned, on any visitor that indulges the one at hand. -/
theorem delivers (p : ProxyClass τ) (h : w.Indulges v) :
    Delivers 0 p.Calls (p.deliver v) (p.deliver (v.entered 0)) (p.deliver (w.entered 0)) := by
  have hheader :
      Delivers 0 (fun _ log => log = [plainCall (.header p.layout.header)])
        (v.header p.layout.header) ((v.entered 0).header p.layout.header)
        ((w.entered 0).header p.layout.header) :=
    .silent (fun _ => rfl) (h (.header p.layout.header))
  have hfields := Delivers.forM_inTurn (delivers_field h) p.callbacks.zipIdx
  have hmethod (member : Member τ) :
      Delivers 0 (fun _ log => log = [plainCall (.method (methodHeader member.method))])
        (v.method (methodHeader member.method))
        ((v.entered 0).method (methodHeader member.method))
        ((w.entered 0).method (methodHeader member.method)) :=
    .silent (fun _ => rfl) (h (.method (methodHeader member.method)))
  have hmethods := Delivers.forM_inTurn hmethod p.members
  have hfinish :
      Delivers 0 (fun _ log => log = [plainCall .finish])
        v.finish (v.entered 0).finish (w.entered 0).finish :=
    .silent (fun _ => rfl) (h .finish)
  have hlater := hmethods.append (Q := fun _ log => log = [plainCall .finish])
    (R := fun _ log => log = p.methodCalls ++ [plainCall .finish])
    (fun _ _ _ _ hlog hlog' => by rw [hlog.eq_map, hlog']; rfl) hfinish
  have hparts := hfields.append
    (R := fun start log => ∃ fields, InTurn FieldCalls p.callbacks.zipIdx start fields ∧
      log = fields ++ (p.methodCalls ++ [plainCall .finish]))
    (fun _ fields _ _ hfields hlog => ⟨fields, hfields, by rw [hlog]⟩) hlater
  refine hheader.append ?_ hparts
  rintro start _ _ - rfl ⟨fields, hfields, rfl⟩
  exact ⟨fields, hfields, rfl⟩

/-- A visitor of too low a level is not called. On any other the proxy makes the calls that it
plans, up to the first that is refused, and both are the same in strict order and without. -/
theorem emit_delivers (p : ProxyClass τ) (v : ClassVisitor σ) (s : σ) :
    (if v.level < p.config.level then
      (p.emit (v.entered 0)).exec ([], s) =
        (.error (.unsupportedFeature "proxy synthesis" p.config.level), [], s)
    else
      ∃ planned, p.Calls 0 planned ∧
        CarriedOut planned ((p.emit (v.entered 0)).exec ([], s)).1
          ((p.emit (v.entered 0)).exec ([], s)).2.1) ∧
      (((p.emit (v.entered 0)).exec ([], s)).1 = ((p.emit v).exec s).1 ∧
        ((p.emit (v.entered 0)).exec ([], s)).2.2 = ((p.emit v).exec s).2) ∧
      ∀ strict, (p.withStrictOrder strict).emit v = p.emit v ∧
        (p.withStrictOrder strict).emit (v.entered 0) = p.emit (v.entered 0) := by
  refine ⟨?_, ?_, fun strict => ⟨p.emit_withStrictOrder strict v, p.emit_withStrictOrder strict _⟩⟩
  · split
    · next hlevel =>
      rw [emit_of_lt (v := v.entered 0) hlevel]
      rfl
    · next hlevel =>
      have hindulged : v.indulged.Indulges v.indulged := fun r =>
        (v.indulged_indulges r).lenient.indulges fun _ => (·.indulges)
      rw [emit_of_not_lt (v := v.entered 0) hlevel]
      exact (p.delivers v.indulged_indulges).carriedOut (p.delivers hindulged) s
  · rcases Decidable.em (v.level < p.config.level) with hlevel | hlevel
    · rw [emit_of_lt hlevel, emit_of_lt (v := v.entered 0) hlevel]
      exact ⟨rfl, rfl⟩
    · rw [emit_of_not_lt hlevel, emit_of_not_lt (v := v.entered 0) hlevel]
      exact (p.delivers v.indulged_indulges).unnoticed s

end ClassUnit.Proxy.ProxyClass

namespace ClassUnit.Proxy

/-- Hands out field visitors that refuse attributes. -/
def attributeless : ClassVisitor Unit where
  level := .asm7
  header _ := pure ()
  field _ := pure (some plainOnly)
  method _ := pure ()
  finish := pure ()

/-- The emission ends in the first field, where the guard passes the refusal on. -/
example : ∃ p, mixed.create = .ok p ∧
    ((p.emit (attributeless.entered 0)).exec ([], ())).2.1 =
      [⟨0, .unit (.header ⟨0x0021, "Pair$$EnhancerByClassweave", some "Pair", none⟩), .ok false⟩,
        ⟨0, .unit (.field ⟨0x1002, "CALLBACK_0", "Lclassweave/proxy/MethodInterceptor;", none⟩),
          .ok true⟩,
        ⟨2, .member (.field (.attach ⟨"ClassweaveCallback", "interceptor".toUTF8.toList⟩)),
          .error (.unsupportedFeature "attributes" .asm7)⟩] :=
  ⟨_, rfl, rfl⟩

end ClassUnit.Proxy
