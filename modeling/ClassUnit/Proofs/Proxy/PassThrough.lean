import ClassUnit.Proofs.Proxy.Dispatch

/-! # Pass-through proxies

A proxy whose members are all left to their bodies cannot be told from one that has no callbacks,
over runs of any length (`passThrough_invisible`). The bodies may change the state of the target and
fail, and calls that the proxy turns away may come in between.

A call is asked for by a name and a descriptor. Here it names a member, or its key is that of no
member; what another split of a member's key does is told with the dispatch of calls. -/

namespace ClassUnit.Proxy
open Json (Value)

variable {σ : Type} {e : Enhancer σ} {p : ProxyClass σ} {t : Target σ}

/-! ## Runs -/

/-- A call as it is asked for. -/
structure Request where
  name : String
  descriptor : String
  args : List Value

namespace Request

def key (r : Request) : String := r.name ++ r.descriptor

def Names (r : Request) (m : Method) : Prop := m.name = r.name ∧ m.descriptor = r.descriptor

instance (r : Request) (m : Method) : Decidable (r.Names m) := inferInstanceAs (Decidable (_ ∧ _))

/-- The call names a member of the target, or none has its key. -/
def Fits (r : Request) (t : Target σ) : Prop :=
  (∃ m ∈ t.members, r.Names m) ∨ ∀ m ∈ t.members, m.key ≠ r.key

theorem Names.key_eq {r : Request} {m : Method} (h : r.Names m) : m.key = r.key := by
  rw [Method.key, h.1, h.2, key]

end Request

/-- A call that was made: the state that it found, its outcome, and the state that it left. -/
structure Made (σ : Type) where
  request : Request
  found : σ
  outcome : Except Failure Value
  left : σ

/-- Makes calls one after another. One that fails does not keep the next from being made. -/
def calls (handle : Request → Call σ Value) : σ → List Request → List (Made σ)
  | _, [] => []
  | s, r :: rs =>
    let (outcome, s') := (handle r).exec s
    ⟨r, s, outcome, s'⟩ :: calls handle s' rs

/-- Each call of a run is what its handler makes of it in the state that it finds. -/
theorem exec_of_mem_calls {handle : Request → Call σ Value} {s : σ} {rs : List Request}
    {x : Made σ} (h : x ∈ calls handle s rs) :
    x.request ∈ rs ∧ (handle x.request).exec x.found = (x.outcome, x.left) := by
  induction rs generalizing s with
  | nil => cases h
  | cons r rs ih =>
    rcases List.mem_cons.1 h with rfl | h
    · exact ⟨List.mem_cons_self, rfl⟩
    · obtain ⟨hmem, hexec⟩ := ih h
      exact ⟨List.mem_cons_of_mem _ hmem, hexec⟩

theorem calls_congr {f g : Request → Call σ Value} {rs : List Request}
    (h : ∀ r ∈ rs, f r = g r) (s : σ) : calls f s rs = calls g s rs := by
  induction rs generalizing s with
  | nil => rfl
  | cons r rs ih =>
    rw [calls, calls, h r List.mem_cons_self]
    exact congrArg _ (ih (fun r' hr' => h r' (List.mem_cons_of_mem _ hr')) _)

/-! ## Bodies called by themselves -/

/-- There is no member of the name and the descriptor that were asked for. -/
def noSuchMember (className : String) (r : Request) : Failure :=
  .noSuchMethod (qualified className r.key)

def wrongCount (className : String) (r : Request) (m : Method) : Failure :=
  .illegalArgument (qualified className r.key ++ " expects " ++ toString m.parameters.length ++
    " arguments, got " ++ toString r.args.length)

/-- What a call comes to if the bodies of a target are called by themselves. The failures of calls
that are turned away are worded for a class of the given name. -/
def Target.answer (t : Target σ) (className : String) (r : Request) : Call σ Value :=
  match t.members.find? (fun m => decide (r.Names m)) with
  | none => throw (noSuchMember className r)
  | some m =>
    if r.args.length = m.parameters.length then t.invoke m r.args
    else throw (wrongCount className r m)

/-- The bodies that were run, with their arguments, in the order of the runs. -/
abbrev Journal := List (Method × List Value)

/-- The same target, where each run of a body is written down as it begins. -/
def Target.journalled (t : Target σ) : Target (Journal × σ) where
  className := t.className
  members := t.members
  invoke m args := ExceptT.mk fun (journal, s) =>
    let (outcome, s') := (t.invoke m args).exec s
    (outcome, journal ++ [(m, args)], s')

theorem journal_of_invoke (t : Target σ) (m : Method) (args : List Value) (s : Journal × σ) :
    ((t.journalled.invoke m args).exec s).2.1 = s.1 ++ [(m, args)] := rfl

/-! ## Members without an interceptor -/

/-- No interceptor stands between the calls to a member and its body. -/
def Member.Open (m : Member σ) : Prop := m.dispatch = .direct ∨ m.dispatch = .passThrough

theorem Member.Open.call_eq {m : Member σ} (h : m.Open) (t : Target σ) (args : List Value) :
    m.dispatch.call t m.method args = t.invoke m.method args := by
  rcases h with h | h <;> rw [h] <;> rfl

/-- Neither a proxy without callbacks nor one that leaves all members to pass-through callbacks has
an interceptor. -/
theorem open_of_create (h : e.create = .ok p)
    (hroutes : e.callbacks = [] ∨
      ∀ m ∈ e.target.members, e.callbacks[e.filter m]? = some .passThrough) :
    ∀ m ∈ p.members, m.Open := by
  intro m hm
  have hroute := Enhancer.route_of_mem_create h hm
  rcases hroutes with hnone | hall
  · have hdirect : ⟨m.method, .direct, none⟩ = m := by
      simpa [Enhancer.route, hnone] using hroute
    exact .inl (congrArg Member.dispatch hdirect).symm
  · have hcallback := hall m.method (Enhancer.method_mem_of_create h hm)
    have hsome : e.callbacks.isEmpty = false := by
      cases hcs : e.callbacks with
      | nil => simp [hcs] at hcallback
      | cons _ _ => rfl
    have hpassing : ⟨m.method, .passThrough, some (e.filter m.method)⟩ = m := by
      simpa [Enhancer.route, hsome, hcallback, Callback.dispatch] using hroute
    exact .inr (congrArg Member.dispatch hpassing).symm

/-! ## Proxies -/

namespace ProxyClass

/-- How a proxy answers a call. -/
def handle (p : ProxyClass σ) (r : Request) : Call σ Value := p.invoke r.name r.descriptor r.args

/-- The same proxy under another name. -/
def named (p : ProxyClass σ) (name : String) : ProxyClass σ := { p with name }

theorem handle_of_names (hp : p.Indexed) {m : Member σ} (hm : m ∈ p.members) {r : Request}
    (hr : r.Names m.method) :
    p.handle r =
      if r.args.length = m.method.parameters.length then m.dispatch.call p.target m.method r.args
      else throw (wrongCount p.name r m.method) := by
  have hmember : p.member? (r.name ++ r.descriptor) = some m :=
    (member?_eq_some_iff hp).2 ⟨hm, hr.key_eq⟩
  rw [handle, invoke_of_member hp hmember, answer, wrongCount, hr.key_eq]

theorem handle_of_unknown (hp : p.Indexed) {r : Request}
    (h : ∀ m ∈ p.members, m.method.key ≠ r.key) : p.handle r = throw (noSuchMember p.name r) :=
  invoke_of_none ((member?_eq_none_iff hp).2 h) r.args

end ProxyClass

/-- A proxy without interceptors comes to the same as its target called by itself, whatever it is
named. -/
theorem handle_named_eq_answer (h : e.create = .ok p) (hopen : ∀ m ∈ p.members, m.Open)
    {r : Request} (hr : r.Fits e.target) (name : String) :
    (p.named name).handle r = e.target.answer name r := by
  have hindexed := Enhancer.indexed_of_create h
  rw [Target.answer]
  cases hfind : e.target.members.find? (fun m => decide (r.Names m)) with
  | some m =>
    have hnames : r.Names m := by simpa using List.find?_some hfind
    obtain ⟨member, hmember, rfl⟩ :=
      Enhancer.exists_member_of_create h (List.mem_of_find?_eq_some hfind)
    rw [ProxyClass.handle_of_names (p := p.named name) hindexed hmember hnames,
      (hopen member hmember).call_eq, ← Enhancer.target_of_create h]
    rfl
  | none =>
    rcases hr with ⟨m, hm, hnames⟩ | hunknown
    · have hnot := List.find?_eq_none.1 hfind m hm
      exact absurd hnames (by simpa using hnot)
    · apply ProxyClass.handle_of_unknown (p := p.named name) hindexed
      intro member hmember
      exact hunknown member.method (Enhancer.method_mem_of_create h hmember)

/-- A call of a run has come to what it should where no interceptor has a part in it. If it names a
member that is left to its body, the body has run on the state that the call found, with the
arguments as they came, and its outcome is that of the call. If it is turned away, the state is left
as it was found. -/
structure Made.Straight (x : Made σ) (t : Target σ) (p : ProxyClass σ) : Prop where
  body : ∀ m ∈ p.members, x.request.Names m.method → m.Open →
    x.request.args.length = m.method.parameters.length →
      (x.outcome, x.left) = (t.invoke m.method x.request.args).exec x.found
  miscounted : ∀ m ∈ p.members, x.request.Names m.method →
    x.request.args.length ≠ m.method.parameters.length →
      (x.outcome, x.left) = (.error (wrongCount p.name x.request m.method), x.found)
  unknown : (∀ m ∈ p.members, m.method.key ≠ x.request.key) →
    (x.outcome, x.left) = (.error (noSuchMember p.name x.request), x.found)

theorem straight_of_mem_calls (h : e.create = .ok p) {s : σ} {rs : List Request} {x : Made σ}
    (hx : x ∈ calls p.handle s rs) : x.Straight e.target p := by
  obtain ⟨-, hexec⟩ := exec_of_mem_calls hx
  have hindexed := Enhancer.indexed_of_create h
  constructor
  · intro m hm hnames hopen hcount
    rw [← hexec, ProxyClass.handle_of_names hindexed hm hnames, if_pos hcount, hopen.call_eq,
      Enhancer.target_of_create h]
  · intro m hm hnames hcount
    rw [← hexec, ProxyClass.handle_of_names hindexed hm hnames, if_neg hcount]
    rfl
  · intro hunknown
    rw [← hexec, ProxyClass.handle_of_unknown hindexed hunknown]
    rfl

/-- In every run, calls to a member that no interceptor stands before run its body, once and with
the arguments as they came, and calls that are turned away run nothing. So a proxy without callbacks
and one that leaves all members to pass-through callbacks answer every run alike and leave the
target alike. They may be named by different suffixes; the failures of calls that are turned away
give the name, and nothing else tells the two apart. -/
theorem passThrough_invisible (t : Target σ) (rs : List Request) (hrs : ∀ r ∈ rs, r.Fits t) :
    (∀ (e : Enhancer σ) (p : ProxyClass σ), e.target = t → e.create = .ok p →
      ∀ s, ∀ x ∈ calls p.handle s rs, x.Straight t p) ∧
    (∀ (e : Enhancer (Journal × σ)) (p : ProxyClass (Journal × σ)), e.target = t.journalled →
      e.create = .ok p → ∀ s, ∀ x ∈ calls p.handle ([], s) rs, ∀ m ∈ p.members,
        x.request.Names m.method → m.Open → x.request.args.length = m.method.parameters.length →
          x.left.1 = x.found.1 ++ [(m.method, x.request.args)]) ∧
    ∀ (plain passing : Enhancer σ) (p q : ProxyClass σ), plain.target = t → passing.target = t →
      plain.create = .ok p → passing.create = .ok q → plain.callbacks = [] →
      (∀ m ∈ t.members, passing.callbacks[passing.filter m]? = some .passThrough) →
      (plain.config.suffix = passing.config.suffix →
        ∀ s, calls p.handle s rs = calls q.handle s rs) ∧
      ∀ name s, calls (p.named name).handle s rs = calls (q.named name).handle s rs := by
  refine ⟨?_, ?_, ?_⟩
  · rintro e p rfl hp s x hx
    exact straight_of_mem_calls hp hx
  · intro e p htarget hp s x hx m hm hnames hopen hcount
    have hbody := (straight_of_mem_calls hp hx).body m hm hnames hopen hcount
    rw [htarget] at hbody
    exact (congrArg (·.2.1) hbody).trans (journal_of_invoke ..)
  · rintro plain passing p q rfl htarget hp hq hnone hall
    have hp_open := open_of_create hp (.inl hnone)
    have hq_open := open_of_create hq (.inr (htarget ▸ hall))
    have halike (name : String) (s : σ) :
        calls (p.named name).handle s rs = calls (q.named name).handle s rs := by
      refine calls_congr (fun r hr => ?_) s
      rw [handle_named_eq_answer hp hp_open (hrs r hr),
        handle_named_eq_answer hq hq_open (htarget ▸ hrs r hr), htarget]
    refine ⟨fun hsuffix s => ?_, halike⟩
    have hname : p.name = q.name := by
      rw [Enhancer.name_of_create hp, Enhancer.name_of_create hq, htarget, hsuffix]
    calc
      calls p.handle s rs = calls (q.named p.name).handle s rs := halike p.name s
      _ = calls q.handle s rs := by rw [hname]; rfl

/-- Bodies that count their runs. One of them fails. -/
def counter : Target Nat :=
  .ofBodies "Counter"
    [⟨⟨"next", "()I", ⟨[], [], .base 'I', []⟩⟩, fun _ => do modify (· + 1); return .null⟩,
      ⟨⟨"halt", "(I)V", ⟨[], [.base 'I'], .base 'V', []⟩⟩, fun _ => do
        modify (· + 1)
        throw (.illegalState "halted")⟩]

/-- A call that fails, one with too few arguments, one of no member, and one that succeeds. -/
def countedCalls : List Request :=
  [⟨"halt", "(I)V", [.null]⟩, ⟨"halt", "(I)V", []⟩, ⟨"none", "()V", []⟩, ⟨"next", "()I", []⟩]

/-- All members of the counter pass through, although there is an interceptor too. -/
def passingCounter : Enhancer Nat where
  target := counter
  callbacks := [.interceptor fun _ _ _ _ => throw (.illegalState "intercepted"), .passThrough]
  filter _ := 1

theorem passThrough_invisible_counter :
    ∃ p q, Enhancer.create { target := counter } = .ok p ∧ passingCounter.create = .ok q ∧
      calls p.handle 0 countedCalls = calls q.handle 0 countedCalls ∧
      (calls q.handle 0 countedCalls).map (·.left) = [1, 1, 1, 2] := by
  have hfits : ∀ r ∈ countedCalls, r.Fits counter := by
    intro r hr
    simp only [countedCalls, List.mem_cons, List.not_mem_nil, or_false] at hr
    rcases hr with rfl | rfl | rfl | rfl
    · exact .inl ⟨_, List.mem_cons_of_mem _ List.mem_cons_self, by decide⟩
    · exact .inl ⟨_, List.mem_cons_of_mem _ List.mem_cons_self, by decide⟩
    · exact .inr (by decide)
    · exact .inl ⟨_, List.mem_cons_self, by decide⟩
  obtain ⟨-, -, halike⟩ := passThrough_invisible counter countedCalls hfits
  have hsame := (halike { target := counter } passingCounter _ _ rfl rfl rfl rfl rfl
    (fun _ _ => rfl)).1 rfl 0
  exact ⟨_, _, rfl, rfl, hsame, rfl⟩

end ClassUnit.Proxy
