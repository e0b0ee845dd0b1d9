import Mathlib.Data.List.Nodup
import ClassUnit.Proofs.Proxy.Keys

/-! # Dispatch of calls

A call finds its member by the key alone. It reaches the member that it names, or none, unless the
key is also that of a member with another name. -/

namespace ClassUnit.Proxy
open Json (Value)

variable {σ : Type} {e : Enhancer σ} {p : ProxyClass σ}

namespace ProxyClass

/-- What becomes of a call once its member is found. -/
def answer (p : ProxyClass σ) (m : Member σ) (args : List Value) : Call σ Value :=
  if args.length = m.method.parameters.length then m.dispatch.call p.target m.method args
  else
    throw (.illegalArgument (qualified p.name m.method.key ++ " expects " ++
      toString m.method.parameters.length ++ " arguments, got " ++ toString args.length))

theorem answer_of_length_ne {m : Member σ} {args : List Value}
    (h : args.length ≠ m.method.parameters.length) :
    p.answer m args = throw (.illegalArgument (qualified p.name m.method.key ++ " expects " ++
      toString m.method.parameters.length ++ " arguments, got " ++ toString args.length)) :=
  if_neg h

theorem member?_eq_some_iff (h : p.Indexed) {key : String} {m : Member σ} :
    p.member? key = some m ↔ m ∈ p.members ∧ m.method.key = key := by
  simp only [member?, Option.bind_eq_some_iff, h key, List.mem_iff_getElem?]
  constructor
  · rintro ⟨i, ⟨m', hi, hkey⟩, hi'⟩
    cases hi.symm.trans hi'
    exact ⟨⟨i, hi⟩, hkey⟩
  · rintro ⟨⟨i, hi⟩, hkey⟩
    exact ⟨i, ⟨m, hi, hkey⟩, hi⟩

theorem member?_eq_none_iff (h : p.Indexed) {key : String} :
    p.member? key = none ↔ ∀ m ∈ p.members, m.method.key ≠ key := by
  simp only [Option.eq_none_iff_forall_ne_some, ne_eq, member?_eq_some_iff h, not_and]

theorem invoke_of_member (hp : p.Indexed) {name descriptor : String} {m : Member σ}
    (h : p.member? (name ++ descriptor) = some m) (args : List Value) :
    p.invoke name descriptor args = p.answer m args := by
  obtain ⟨-, hkey⟩ := (member?_eq_some_iff hp).1 h
  simp only [invoke, h, answer, hkey]

/-- A call with the right number of arguments takes the route of its member. -/
theorem invoke_of_create (h : e.create = .ok p) {m : Member σ} (hm : m ∈ p.members)
    {args : List Value} (hargs : args.length = m.method.parameters.length) :
    p.invoke m.method.name m.method.descriptor args = m.dispatch.call e.target m.method args := by
  have hindexed := Enhancer.indexed_of_create h
  have hmember := (member?_eq_some_iff hindexed).2 ⟨hm, rfl⟩
  rw [invoke_of_member hindexed hmember, answer, if_pos hargs, Enhancer.target_of_create h]

theorem invoke_of_none {name descriptor : String} (h : p.member? (name ++ descriptor) = none)
    (args : List Value) :
    p.invoke name descriptor args =
      throw (.noSuchMethod (qualified p.name (name ++ descriptor))) := by
  simp only [invoke, h]

/-- A call is answered by the member with the name and the descriptor that it gives, and fails if
there is no such member. -/
def Faithful (p : ProxyClass σ) (name descriptor : String) : Prop :=
  ∀ args : List Value,
    (∃ m ∈ p.members, m.method.name = name ∧ m.method.descriptor = descriptor ∧
        p.invoke name descriptor args = p.answer m args) ∨
      ((∀ m ∈ p.members, ¬(m.method.name = name ∧ m.method.descriptor = descriptor)) ∧
        p.invoke name descriptor args =
          throw (.noSuchMethod (qualified p.name (name ++ descriptor))))

theorem descriptor_eq_of_key {m : Method} {name descriptor : String}
    (hkey : m.key = name ++ descriptor) (hname : m.name = name) : m.descriptor = descriptor := by
  rw [Method.key, hname] at hkey
  exact String.append_right_inj name |>.1 hkey

theorem faithful_of_names (h : e.create = .ok p) {name descriptor : String}
    (hnames : ∀ m ∈ p.members, m.method.key = name ++ descriptor → m.method.name = name) :
    p.Faithful name descriptor := by
  intro args
  have hindexed := Enhancer.indexed_of_create h
  cases hmember : p.member? (name ++ descriptor) with
  | some m =>
    obtain ⟨hm, hkey⟩ := (member?_eq_some_iff hindexed).1 hmember
    have hname := hnames m hm hkey
    have hinvoke := invoke_of_member hindexed hmember args
    exact .inl ⟨m, hm, hname, descriptor_eq_of_key hkey hname, hinvoke⟩
  | none =>
    refine .inr ⟨?_, invoke_of_none hmember args⟩
    rintro m hm ⟨rfl, rfl⟩
    exact (member?_eq_none_iff hindexed).1 hmember m hm rfl

/-- Calls are faithful but for those whose name and descriptor are another split of the key of a
member. An argument list of the wrong length tells such a call from one that fails as it should. -/
theorem faithful_iff [Inhabited σ] (h : e.create = .ok p) (name descriptor : String) :
    p.Faithful name descriptor ↔
      ∀ m ∈ p.members, m.method.key = name ++ descriptor → m.method.name = name := by
  refine ⟨fun hfaithful m hm hkey => ?_, faithful_of_names h⟩
  have hnodup := Enhancer.nodup_keys_of_create h
  have hindexed := Enhancer.indexed_of_create h
  let args : List Value := List.replicate (m.method.parameters.length + 1) .null
  rcases hfaithful args with ⟨m', hm', rfl, rfl, -⟩ | ⟨-, hinvoke⟩
  · rw [List.inj_on_of_nodup_map hnodup hm hm' hkey]
  · have hmember := (member?_eq_some_iff hindexed).2 ⟨hm, hkey⟩
    rw [invoke_of_member hindexed hmember, answer_of_length_ne (by simp [args])] at hinvoke
    have hresult := congrArg (fun x => (Run.exec default x).1) hinvoke
    have hkind : Failure.illegalArgumentKind = Failure.noSuchMethodKind :=
      congrArg Failure.kind (Except.error.inj hresult)
    exact absurd hkind (by decide)

/-- A target with a single method. -/
def runner : Enhancer Unit where
  target := .ofBodies "T" [⟨⟨"run", "()V", ⟨[], [], .base 'V', []⟩⟩, fun _ => pure .null⟩]

theorem faithful_iff_runner : ∃ p, runner.create = .ok p ∧ p.Faithful "run" "()V" := by
  refine ⟨_, rfl, (faithful_iff (e := runner) rfl "run" "()V").2 ?_⟩
  rintro m (_ | ⟨_, ⟨⟩⟩) -
  rfl

/-- The method runs although its name is not that of the call. -/
theorem not_faithful_runner : ∃ p, runner.create = .ok p ∧
    (∀ m ∈ p.members, m.method.name ≠ "ru") ∧
    (p.invoke "ru" "n()V" []).exec () = (.ok .null, ()) ∧ ¬p.Faithful "ru" "n()V" := by
  have hname : ∀ p, runner.create = .ok p → ∀ m ∈ p.members, m.method.name ≠ "ru" := by
    rintro p ⟨⟩ m (_ | ⟨_, ⟨⟩⟩)
    decide
  refine ⟨_, rfl, hname _ rfl, rfl, fun hfaithful => ?_⟩
  rcases hfaithful [] with ⟨m, hm, hru, -⟩ | ⟨-, hinvoke⟩
  · exact hname _ rfl m hm hru
  · have hresult := congrArg (fun x => (Run.exec () x).1) hinvoke
    cases hresult

end ProxyClass

end ClassUnit.Proxy
