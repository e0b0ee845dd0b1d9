import ClassUnit.Proofs.Proxy.Descriptors
import ClassUnit.Proofs.Proxy.Dispatch
import ClassUnit.Proxy.Override

/-! # Method injection

The last override that matches a member decides its calls (`injection_routes`). The filter searches
the overrides when the proxy is made, and each interceptor searches them again at every call. All
of them find the same override, so an interceptor never meets a call that is not its own. -/

namespace ClassUnit.Proxy
open Json (Value)
open Signature (TypeTree)

/-! ## The override that counts -/

namespace Override

variable {overrides : List Override} {o : Override} {m : Method}

/-- The override names the method, and its overload if it names one. -/
def Matches (o : Override) (m : Method) : Prop :=
  o.method = m.name ∧ (o.descriptor = none ∨ o.descriptor = some m.descriptor)

/-- The override matches the method, and none of those after it does. -/
def LastMatch (overrides : List Override) (m : Method) (o : Override) : Prop :=
  ∃ before after, overrides = before ++ o :: after ∧ o.Matches m ∧ ∀ o' ∈ after, ¬o'.Matches m

theorem appliesTo_iff : o.appliesTo m ↔ o.Matches m := by
  cases hd : o.descriptor <;> simp [appliesTo, Matches, hd]

theorem select_eq_none_iff : select overrides m = none ↔ ∀ o ∈ overrides, ¬o.Matches m := by
  simp only [select, List.find?_eq_none, List.mem_reverse, appliesTo_iff]

/-- The override that counts is the last of those that match. -/
theorem select_eq_some_iff : select overrides m = some o ↔ LastMatch overrides m o := by
  rw [select, List.find?_eq_some_iff_append, appliesTo_iff]
  simp only [List.reverse_eq_append_iff, Bool.not_eq_true', ← Bool.not_eq_true, appliesTo_iff]
  constructor
  · rintro ⟨hm, after, before, rfl, hafter⟩
    refine ⟨before.reverse, after.reverse, by simp, hm, fun o' ho' => ?_⟩
    exact hafter o' (List.mem_reverse.1 ho')
  · rintro ⟨before, after, rfl, hm, hafter⟩
    refine ⟨hm, after.reverse, before.reverse, by simp, fun o' ho' => ?_⟩
    exact hafter o' (List.mem_reverse.1 ho')

end Override

/-! ## What is asked of the container -/

/-- The descriptor of the method is its parameters, in parentheses, and then the given text. -/
def Method.Returns (m : Method) (type : String) : Prop :=
  m.descriptor = "(" ++ String.join (m.parameters.map TypeTree.text) ++ ")" ++ type

/-- A bean is asked for by the name that an override gives, as it stands, if the name has any
character that can be seen. -/
def AsksFor (bean asked : Option String) : Prop :=
  ∀ name, asked = some name ↔ bean = some name ∧ ∃ c ∈ name.toList, ¬Text.isBlank c

theorem Method.Accepted.returns {m : Method} (h : m.Accepted) : m.Returns m.result.text := by
  obtain ⟨-, -, herased, htext, -⟩ := Method.ofNameAndDescriptor_eq_ok_iff.1 h
  rw [Method.Returns, ← htext, herased.text_eq]
  rfl

theorem asksFor_filter (bean : Option String) :
    AsksFor bean (bean.filter fun name => !Text.blank name) := by
  intro name
  simp [Option.filter_eq_some_iff, Text.blank]

theorem Method.Returns.unique {m : Method} {a b : String} (ha : m.Returns a) (hb : m.Returns b) :
    a = b :=
  String.append_right_inj _ |>.1 (ha.symm.trans hb)

theorem AsksFor.unique {bean a b : Option String} (ha : AsksFor bean a) (hb : AsksFor bean b) :
    a = b :=
  Option.ext fun name => (ha name).trans (hb name).symm

section

variable {σ : Type} {target : Target σ} {overrides : List Override} {container : Container σ}
  {m : Method} {args : List Value}

/-- What a call comes to by an override. A lookup is answered by the container alone. For a
replacement the container is asked first, and the replacer acts on what that leaves. -/
def Action.Answers (target : Target σ) (container : Container σ) (m : Method)
    (args : List Value) : Action → Call σ Value → Prop
  | .lookup bean, call =>
    ∃ asked type, AsksFor bean asked ∧ m.Returns type ∧ call = container.bean asked type
  | .replace name, call => ∀ s,
    match container.replacer name s with
    | (some replacer, s') => call.exec s = (replacer target m args).exec s'
    | (none, s') =>
      call.exec s =
        (.error (.illegalState ("no method replacer named '" ++ name ++ "'")), s')

/-- A lookup asks the container once, by the name that is not blank or by the result type. -/
theorem lookupInterceptor_answers {bean : Option String} (hm : m.Accepted)
    (h : Override.actionFor overrides m = some (.lookup bean)) (body : SuperCall σ) :
    (Action.lookup bean).Answers target container m args
      (lookupInterceptor overrides container target m args body) := by
  refine ⟨_, _, asksFor_filter bean, hm.returns, ?_⟩
  simp only [lookupInterceptor, h]

/-- An action that cannot fail is run on the state, and what follows it on the state it leaves. -/
theorem exec_monadLift_bind {ε α β : Type} (x : StateM σ α) (f : α → Run ε σ β) (s : σ) :
    ((monadLift x : Run ε σ α) >>= f).exec s = (f (x s).1).exec (x s).2 := rfl

theorem replaceInterceptor_answers {name : String}
    (h : Override.actionFor overrides m = some (.replace name)) (body : SuperCall σ) :
    (Action.replace name).Answers target container m args
      (replaceInterceptor overrides container target m args body) := by
  intro s
  simp only [replaceInterceptor, h]
  rw [exec_monadLift_bind]
  rcases hasked : container.replacer name s with ⟨_ | replacer, s'⟩
  · rfl
  · rfl

/-! ## Routes -/

/-- The route to which the position that the filter gives leads. -/
def injectedBy (overrides : List Override) (container : Container σ) : Option Action → Dispatch σ
  | none => .passThrough
  | some (.lookup _) => .intercepted (lookupInterceptor overrides container)
  | some (.replace _) => .intercepted (replaceInterceptor overrides container)

/-- Every member has a route, so that no filter answer is out of range. -/
theorem route_injection (m : Method) :
    (injection target overrides container).route m =
      .ok ⟨m, injectedBy overrides container (Override.actionFor overrides m),
        some (overrideFilter overrides m)⟩ := by
  rcases h : Override.actionFor overrides m with _ | _ | _ <;>
    simp [Enhancer.route, injection, overrideFilter, injectedBy, h, Callback.dispatch]

theorem exists_create_injection (overrides : List Override) (container : Container σ)
    (hkeys : (target.members.map Method.key).Nodup) :
    ∃ p, (injection target overrides container).create = .ok p ∧
      ∀ m ∈ target.members, ∀ args : List Value, args.length = m.parameters.length →
        p.invoke m.name m.descriptor args =
          (injectedBy overrides container (Override.actionFor overrides m)).call target m args := by
  obtain ⟨p, hp, hmembers⟩ :=
    Enhancer.exists_create_of_routes hkeys fun m _ => route_injection m
  refine ⟨p, hp, fun m hm args hargs => ?_⟩
  exact ProxyClass.invoke_of_create hp (hmembers ▸ List.mem_map_of_mem hm) hargs

/-- The last override that matches a member decides the calls to it. Without one the body runs,
once and with the arguments as they came. -/
theorem injection_routes (target : Target σ) (overrides : List Override)
    (container : Container σ) (haccepted : ∀ m ∈ target.members, m.Accepted)
    (hkeys : (target.members.map Method.key).Nodup) :
    ∃ p, (injection target overrides container).create = .ok p ∧
      ∀ m ∈ target.members, ∀ args : List Value, args.length = m.parameters.length →
        ((∀ o ∈ overrides, ¬o.Matches m) ∧
            p.invoke m.name m.descriptor args = target.invoke m args) ∨
          ∃ o, Override.LastMatch overrides m o ∧
            o.action.Answers target container m args (p.invoke m.name m.descriptor args) := by
  obtain ⟨p, hp, hinvoke⟩ := exists_create_injection overrides container hkeys
  refine ⟨p, hp, fun m hm args hargs => ?_⟩
  rw [hinvoke m hm args hargs]
  cases hselect : Override.select overrides m with
  | none =>
    refine .inl ⟨Override.select_eq_none_iff.1 hselect, ?_⟩
    rw [Override.actionFor, hselect]
    rfl
  | some o =>
    refine .inr ⟨o, Override.select_eq_some_iff.1 hselect, ?_⟩
    -- The route was chosen by this action, and the interceptor finds it once more.
    have haction : Override.actionFor overrides m = some o.action := by
      rw [Override.actionFor, hselect, Option.map_some]
    rw [haction]
    cases ho : o.action with
    | lookup bean =>
      exact lookupInterceptor_answers (haccepted m hm) (ho ▸ haction) ⟨target, m⟩
    | replace name => exact replaceInterceptor_answers (ho ▸ haction) ⟨target, m⟩

end

/-- Bodies that leave a note when they run. -/
def picker : Target (List String) :=
  .ofBodies "Picker"
    [⟨⟨"pick", "()I", ⟨[], [], .base 'I', []⟩⟩, fun _ => do modify ("pick" :: ·); return .null⟩,
      ⟨⟨"run", "()V", ⟨[], [], .base 'V', []⟩⟩, fun _ => do modify ("run" :: ·); return .null⟩]

/-- Overrides of one method, the last of them for one overload and with a blank name. -/
def picks : List Override :=
  [⟨"pick", none, .lookup (some "first")⟩, ⟨"pick", none, .replace "swap"⟩,
    ⟨"pick", some "()I", .lookup (some " ")⟩]

/-- Beans that leave a note of the type that is asked for. -/
def shelf : Container (List String) where
  bean name type := do
    modify (name.getD "any" :: type :: ·)
    return .null
  replacer _ := return none

theorem injection_routes_picker :
    ∃ p, (injection picker picks shelf).create = .ok p ∧
      (p.invoke "pick" "()I" []).exec [] = (.ok .null, ["any", "I"]) ∧
      (p.invoke "run" "()V" []).exec [] = (.ok .null, ["run"]) := by
  have haccepted : ∀ m ∈ picker.members, m.Accepted := by
    rintro m (_ | ⟨_, _ | ⟨_, ⟨⟩⟩⟩) <;> rfl
  obtain ⟨p, hp, hroutes⟩ := injection_routes picker picks shelf haccepted (by decide)
  refine ⟨p, hp, ?_, ?_⟩
  · have hpick := haccepted _ List.mem_cons_self
    rcases hroutes _ List.mem_cons_self [] rfl with ⟨hnone, -⟩ | ⟨o, ho, hanswers⟩
    · exact absurd ⟨rfl, .inr rfl⟩ (hnone ⟨"pick", some "()I", .lookup (some " ")⟩ (by decide))
    · cases Override.select_eq_some_iff.2 ho
      obtain ⟨asked, type, hasked, htype, hcall⟩ := hanswers
      cases hasked.unique (asksFor_filter (some " "))
      cases htype.unique hpick.returns
      rw [hcall]
      rfl
  · rcases hroutes _ (List.mem_cons_of_mem _ List.mem_cons_self) [] rfl with ⟨-, hcall⟩ | ⟨o, ho, -⟩
    · rw [hcall]
      rfl
    · cases Override.select_eq_some_iff.2 ho

end ClassUnit.Proxy
