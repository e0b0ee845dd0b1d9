import Mathlib.Data.List.Enum
import ClassUnit.Proofs.Class.NormalForm
import ClassUnit.Proofs.Proxy.Creation

/-! # Layout of proxy classes

The class that a proxy is emitted as names its parts in step with the proxy itself: the position
that a member refers to is that of a field, and the field says of its kind what the route of the
member does (`Enhancer.layout_sound`). The emission and the creation go over the callbacks
separately, so the layout is computed once (`ProxyClass.layout`), and both are compared with it. -/

namespace ClassUnit.Proxy

variable {σ τ : Type}

namespace ProxyClass

/-- A callback field, as it is recorded. -/
def callbackField (index : Nat) (callback : Callback σ) : FieldNode where
  header := fieldHeader index callback
  attributes := [callbackAttribute callback]
  finished := true

def methodHeader (m : Method) : MethodHeader := ⟨methodAccess, m.name, m.descriptor⟩

/-- The class that a proxy is emitted as. -/
def layout (p : ProxyClass σ) : ClassNode where
  header := ⟨classAccess, p.name, some p.target.className, none⟩
  fields := p.callbacks.zipIdx.map fun (callback, index) => callbackField index callback
  methods := p.members.map fun member => methodHeader member.method
  finished := true

/-! ## Emission -/

/-- A guard lets the contents of a field pass, whatever is refused: there is one end, and it comes
last. -/
theorem emitContents_ordered (callback : Callback τ) (f : FieldVisitor σ) :
    (emitContents callback f.ordered).withOwn FieldVisitor.Phase.members =
      emitContents callback f := by
  apply Run.ext
  intro s
  have hattach (a : Attribute) : (f.ordered.attach a).exec (.members, s) =
      (((f.attach a).exec s).1, .members, ((f.attach a).exec s).2) := rfl
  have hfinish (s : σ) : f.ordered.finish.exec (.members, s) =
      (do f.finish.on FieldVisitor.besidePhase
          modify fun t => (FieldVisitor.Phase.ended, t.2) :
        Visit (FieldVisitor.Phase × σ) Unit).exec (.members, s) := rfl
  rw [Run.exec_withOwn, emitContents, emitContents, Run.exec_bind, Run.exec_bind, hattach]
  rcases (f.attach (callbackAttribute callback)).exec s with ⟨_ | _, s'⟩
  · rfl
  · simp only [hfinish, Run.exec_bind, Run.exec_on, FieldVisitor.besidePhase]
    rcases f.finish.exec s' with ⟨_ | _, _⟩ <;> rfl

/-- A callback field comes to the same in either order. -/
theorem emitField_eq (strict : Bool) (v : ClassVisitor σ) (callback : Callback τ) (index : Nat) :
    emitField strict v callback index =
      v.field (fieldHeader index callback) >>= (·.elim (pure ()) (emitContents callback)) := by
  rw [emitField]
  congr 1
  funext handed
  cases handed with
  | none => rfl
  | some f =>
    cases strict with
    | false => rfl
    | true => exact emitContents_ordered callback f

theorem emitField_adds (strict : Bool) (level : Level) (header : ClassHeader)
    (callback : Callback τ) (index : Nat) :
    (emitField strict (ClassNode.recorder level) callback index).Adds
      (fun fields => { header, fields }) [callbackField index callback] := by
  intro fields
  have hsits := ClassNode.fieldAt_sits { header, fields }
  have hattach := Run.exec_on_place hsits
    ((FieldNode.recorder level).attach (callbackAttribute callback))
    { header := fieldHeader index callback }
  have hfinish := Run.exec_on_place hsits (FieldNode.recorder level).finish
    { header := fieldHeader index callback, attributes := [callbackAttribute callback] }
  rw [emitField_eq, Run.exec_bind_of_ok (ClassNode.exec_field level _ (fieldHeader index callback))]
  exact (Run.exec_bind_of_ok hattach).trans hfinish

/-- A recorder of the proxy's level records the layout. -/
theorem exec_emit (p : ProxyClass τ) {level : Level} (hlevel : p.config.level ≤ level) :
    (p.emit (ClassNode.recorder level)).exec {} = (.ok (), p.layout) := by
  have hallowed : ¬level < p.config.level := Nat.not_lt.2 hlevel
  have hgate : (Run.of (level.require p.config.level "proxy synthesis") : Visit ClassNode Unit).exec
      {} = (.ok (), {}) := by
    rw [Run.exec_of, Level.require, if_neg hallowed]
  have hheader := ClassNode.exec_header level {} p.layout.header
  rw [if_pos (by rfl)] at hheader
  have hfields : Run.Adds (fun fields => ({ header := p.layout.header, fields } : ClassNode))
      (p.callbacks.zipIdx.forM fun (callback, index) =>
        emitField p.config.strictOrder (ClassNode.recorder level) callback index)
      p.layout.fields :=
    Run.Adds.map p.callbacks.zipIdx fun b _ => emitField_adds _ level _ b.1 b.2
  have hmethods (fields : List FieldNode) :
      Run.Adds (fun methods => ({ header := p.layout.header, fields, methods } : ClassNode))
        (p.members.forM fun member =>
          (ClassNode.recorder level).method (methodHeader member.method))
        p.layout.methods :=
    Run.Adds.map p.members fun _ _ _ => rfl
  refine (Run.exec_bind_of_ok hgate).trans ?_
  refine (Run.exec_bind_of_ok hheader).trans ?_
  refine (Run.exec_bind_of_ok (hfields [])).trans ?_
  exact Run.exec_bind_of_ok (hmethods _ [])

/-! ## Names -/

theorem fieldName_injective : Function.Injective fieldName := by
  intro i j h
  have hrepr : i.repr = j.repr := String.append_right_inj _ |>.1 h
  have hdigits : Nat.toDigits 10 i = Nat.toDigits 10 j := by
    rw [← Nat.toList_repr, ← Nat.toList_repr, hrepr]
  calc
    i = Nat.ofDigitChars 10 (Nat.toDigits 10 i) 0 := Nat.ofDigitChars_ten_toDigits.symm
    _ = Nat.ofDigitChars 10 (Nat.toDigits 10 j) 0 := by rw [hdigits]
    _ = j := Nat.ofDigitChars_ten_toDigits

theorem layout_fieldNames (p : ProxyClass σ) :
    p.layout.fields.map (·.header.name) = (List.range p.callbacks.length).map fieldName := by
  have hpositions : p.callbacks.zipIdx.map Prod.snd = List.range p.callbacks.length := by
    rw [List.zipIdx_map_snd, List.range_eq_range']
  rw [← hpositions, layout, List.map_map, List.map_map]
  rfl

/-- The field at a position is that of the callback there. -/
theorem layout_getElem? (p : ProxyClass σ) (i : Nat) :
    p.layout.fields[i]? = (p.callbacks[i]?).map (callbackField i) := by
  rw [layout, List.getElem?_map, List.getElem?_zipIdx]
  cases p.callbacks[i]? <;> simp

/-! ## Kinds -/

/-- The descriptor and the one attribute of a field tell a callback of this kind. -/
def Holds (f : FieldNode) (descriptor kind : String) : Prop :=
  f.header.descriptor = descriptor ∧ f.attributes = [⟨"ClassweaveCallback", kind.toUTF8.toList⟩]

theorem layout_holds (p : ProxyClass σ) :
    List.Forall₂ (fun callback f => Holds f callback.fieldDescriptor callback.kind) p.callbacks
      p.layout.fields := by
  have hcallbacks : p.callbacks.zipIdx.map Prod.fst = p.callbacks := List.zipIdx_map_fst 0 _
  rw [layout]
  conv => arg 2; rw [← hcallbacks]
  rw [List.forall₂_map_left_iff, List.forall₂_map_right_iff, List.forall₂_same]
  exact fun _ _ => ⟨rfl, rfl⟩

/-- A field has the kind of its callback, and so has a route through the callback. -/
theorem passThrough_iff (callback : Callback σ) (i : Nat) :
    callback.dispatch.kind = "passThrough" ↔
      Holds (callbackField i callback) "Lclassweave/proxy/NoOp;" "noOp" := by
  cases callback with
  | interceptor run =>
    have hkind : "intercepted" ≠ "passThrough" := by decide
    have hdescriptor : "Lclassweave/proxy/MethodInterceptor;" ≠ "Lclassweave/proxy/NoOp;" := by
      decide
    exact iff_of_false hkind fun h => hdescriptor h.1
  | passThrough => exact iff_of_true rfl ⟨rfl, rfl⟩

theorem intercepted_iff (callback : Callback σ) (i : Nat) :
    callback.dispatch.kind = "intercepted" ↔
      Holds (callbackField i callback) "Lclassweave/proxy/MethodInterceptor;" "interceptor" := by
  cases callback with
  | interceptor run => exact iff_of_true rfl ⟨rfl, rfl⟩
  | passThrough =>
    have hkind : "passThrough" ≠ "intercepted" := by decide
    have hdescriptor : "Lclassweave/proxy/NoOp;" ≠ "Lclassweave/proxy/MethodInterceptor;" := by
      decide
    exact iff_of_false hkind fun h => hdescriptor h.1

end ProxyClass

namespace Enhancer

open ProxyClass (Holds fieldName)

variable {e : Enhancer σ} {p : ProxyClass σ}

/-- Without callbacks a member refers to none, and else to one that its route goes through. -/
theorem callback_of_mem_create (h : e.create = .ok p) {member : Member σ}
    (hmember : member ∈ p.members) :
    (e.callbacks = [] ∧ member.callback = none) ∨
      ∃ i callback, member.callback = some i ∧ e.callbacks[i]? = some callback ∧
        member.dispatch = callback.dispatch := by
  have hroute := route_of_mem_create h hmember
  rw [route] at hroute
  split at hroute
  · next hempty =>
    have hmade := Except.ok.inj hroute
    exact .inl ⟨List.isEmpty_iff.1 hempty, (congrArg Member.callback hmade).symm⟩
  · split at hroute
    · next callback hcallback =>
      have hmade := Except.ok.inj hroute
      exact .inr ⟨_, callback, (congrArg Member.callback hmade).symm, hcallback,
        (congrArg Member.dispatch hmade).symm⟩
    · cases hroute

/-- The class stands for a proxy of the enhancer's target: its fields are the callbacks, its methods
the members, and each member refers to a field of its kind. -/
structure Sound (e : Enhancer σ) (p : ProxyClass σ) (c : ClassNode) : Prop where
  name : c.header.name = e.target.className ++ e.config.suffix
  superName : c.header.superName = some e.target.className
  fieldNames : c.fields.map (·.header.name) = (List.range e.callbacks.length).map fieldName
  nodup_fieldNames : (c.fields.map (·.header.name)).Nodup
  finished : ∀ f ∈ c.fields, f.finished
  callbacks : List.Forall₂ (fun callback f => Holds f callback.fieldDescriptor callback.kind)
    e.callbacks c.fields
  /-- In the order of their declaration. -/
  members : p.members.map (·.method) = e.target.members
  methods : c.methods.map (fun m => (m.name, m.descriptor)) =
    e.target.members.map fun m => (m.name, m.descriptor)
  nodup_keys : (c.methods.map fun m => m.name ++ m.descriptor).Nodup
  direct : ∀ member ∈ p.members, member.callback = none ↔ c.fields = []
  routed : ∀ member ∈ p.members, c.fields ≠ [] →
    ∃ i f, member.callback = some i ∧ c.fields[i]? = some f ∧
      (member.dispatch.kind = "passThrough" ↔ Holds f "Lclassweave/proxy/NoOp;" "noOp") ∧
      (member.dispatch.kind = "intercepted" ↔
        Holds f "Lclassweave/proxy/MethodInterceptor;" "interceptor")

theorem sound_layout (h : e.create = .ok p) : e.Sound p p.layout := by
  have hcallbacks := callbacks_of_create h
  have hmethods : p.layout.methods = e.target.members.map ProxyClass.methodHeader := by
    rw [← map_method_of_create h, List.map_map]
    rfl
  have hfields : p.layout.fields = [] ↔ e.callbacks = [] := by
    rw [ProxyClass.layout, List.map_eq_nil_iff, List.zipIdx_eq_nil_iff, hcallbacks]
  have hnames := p.layout_fieldNames
  rw [hcallbacks] at hnames
  constructor
  case name => exact name_of_create h
  case superName => exact congrArg (fun t => some t.className) (target_of_create h)
  case fieldNames => exact hnames
  case nodup_fieldNames =>
    rw [hnames]
    exact List.nodup_range.map ProxyClass.fieldName_injective
  case finished =>
    intro f hf
    obtain ⟨b, -, rfl⟩ := List.mem_map.1 hf
    rfl
  case callbacks => exact hcallbacks ▸ p.layout_holds
  case members => exact map_method_of_create h
  case methods =>
    rw [hmethods, List.map_map]
    rfl
  case nodup_keys =>
    have hkeys := nodup_keys_of_create h
    rw [ProxyClass.layout, List.map_map]
    exact hkeys
  case direct =>
    intro member hmember
    rw [hfields]
    rcases callback_of_mem_create h hmember with ⟨hempty, hnone⟩ | ⟨i, callback, hsome, hi, -⟩
    · exact iff_of_true hnone hempty
    · refine iff_of_false (by simp [hsome]) fun hempty => ?_
      rw [hempty] at hi
      cases hi
  case routed =>
    intro member hmember hsome
    rcases callback_of_mem_create h hmember with ⟨hempty, -⟩ | ⟨i, callback, hi, hget, hdispatch⟩
    · exact absurd (hfields.2 hempty) hsome
    · refine ⟨i, ProxyClass.callbackField i callback, hi, ?_, ?_, ?_⟩
      · rw [ProxyClass.layout_getElem?, hcallbacks, hget]
        rfl
      · rw [hdispatch]
        exact ProxyClass.passThrough_iff callback i
      · rw [hdispatch]
        exact ProxyClass.intercepted_iff callback i

/-- A proxy that is made can be emitted onto a new class of its level, and this is sound. -/
theorem layout_sound (h : e.create = .ok p) {level : Level} (hlevel : e.config.level ≤ level) :
    ∃ c, (p.emit (ClassNode.recorder level)).exec {} = (.ok (), c) ∧ e.Sound p c := by
  rw [← config_of_create h] at hlevel
  exact ⟨p.layout, p.exec_emit hlevel, sound_layout h⟩

end Enhancer

/-- One callback of each kind, each for one method, and fields that are visited in strict order. -/
def mixed : Enhancer Unit where
  target := .ofBodies "Pair"
    [⟨⟨"left", "()V", ⟨[], [], .base 'V', []⟩⟩, fun _ => pure .null⟩,
      ⟨⟨"right", "()V", ⟨[], [], .base 'V', []⟩⟩, fun _ => pure .null⟩]
  callbacks := [.interceptor passThrough, .passThrough]
  filter m := if m.name = "left" then 1 else 0
  config := { level := .asm5, strictOrder := true }

theorem layout_sound_mixed :
    Level.asm5 ≤ Level.asm6 ∧ ∃ p, mixed.create = .ok p ∧
      p.members.map (·.callback) = [some 1, some 0] ∧
      ∃ c, (p.emit (ClassNode.recorder .asm6)).exec {} = (.ok (), c) ∧ mixed.Sound p c :=
  ⟨by decide, _, rfl, rfl, Enhancer.layout_sound rfl (by decide)⟩

end ClassUnit.Proxy
