import ClassUnit.Proofs.Field.Session
import ClassUnit.Proofs.Proxy.Dispatch

/-! # Examination of members

An enhancer examines the members of its target one after the other. The first that offends, by its
key or by its position, is the one that is reported; if none does, each is entered under its key
(`Enhancer.create_examines`).

A filter may have effects, so what it answers depends on what it was asked before. It is asked about
each member that is examined and has a key of its own, once and in their order: by then its state is
the one that being asked about the members before leaves it in (`Enhancer.afterAsking`). -/

namespace ClassUnit.Proxy

variable {σ : Type}

/-! ## Lookups -/

/-- The one member of the key is found under it, or there is none. -/
def ProxyClass.Finds (p : ProxyClass σ) (key : String) : Prop :=
  (∃ before member after, p.members = before ++ member :: after ∧ member.method.key = key ∧
      (∀ other ∈ before ++ after, other.method.key ≠ key) ∧
      p.member? key = some member ∧ p.dispatch? key = some member.dispatch) ∨
    (∀ member ∈ p.members, member.method.key ≠ key) ∧ p.member? key = none ∧ p.dispatch? key = none

theorem ProxyClass.finds {p : ProxyClass σ} (h : p.Indexed) (key : String) : p.Finds key := by
  cases hfind : p.member? key with
  | none =>
    exact .inr ⟨(member?_eq_none_iff h).1 hfind, hfind, by rw [dispatch?, hfind, Option.map_none]⟩
  | some member =>
    obtain ⟨hmember, rfl⟩ := (member?_eq_some_iff h).1 hfind
    obtain ⟨before, after, hsplit⟩ := List.append_of_mem hmember
    have hkeys := h.nodup_keys
    rw [hsplit, List.map_append, List.map_cons, List.nodup_middle, List.nodup_cons,
      ← List.map_append] at hkeys
    refine .inl ⟨before, member, after, hsplit, rfl, fun other hother hkey => hkeys.1 ?_, hfind, ?_⟩
    · exact List.mem_map.2 ⟨other, hother, hkey⟩
    · rw [dispatch?, hfind, Option.map_some]

namespace Enhancer

/-! ## Filters -/

section

variable {ρ : Type} (ask : Method → StateM ρ Nat) (t : ρ)

/-- The state in which a filter is left by being asked about these methods, in their order. -/
def afterAsking (asked : List Method) : ρ := asked.foldl (fun t m => ((ask m).run t).2) t

/-- What it answers next. -/
def answerAfter (asked : List Method) (m : Method) : Nat := ((ask m).run (afterAsking ask t asked)).1

theorem afterAsking_append_singleton (asked : List Method) (m : Method) :
    afterAsking ask t (asked ++ [m]) = ((ask m).run (afterAsking ask t asked)).2 :=
  List.foldl_append

end

/-! ## Members -/

variable (e : Enhancer σ) (answer : List Method → Method → Nat)

/-- The methods that the filter is asked about while these are examined. -/
def asked (ms : List Method) : List Method := if e.callbacks.isEmpty then [] else ms

/-- A method repeats the key of one before it, or is sent to a position that no callback has. -/
def Offends (before : List Method) (m : Method) : Prop :=
  m.key ∈ before.map Method.key ∨ e.callbacks ≠ [] ∧ e.callbacks.length ≤ answer before m

/-- No method of the list offends. -/
def Clear (ms : List Method) : Prop :=
  ∀ before m after, ms = before ++ m :: after → ¬e.Offends answer before m

/-- The member has the route of the callback at this position. -/
inductive Routes (index : Nat) (member : Member σ) : Prop
  | direct (hcallbacks : e.callbacks = []) (hdispatch : member.dispatch = .direct)
      (hcallback : member.callback = none)
  | through {callback : Callback σ} (hget : e.callbacks[index]? = some callback)
      (hdispatch : member.dispatch = callback.dispatch) (hcallback : member.callback = some index)

/-- The roster has the given methods as its members, each with the route that the filter gives it,
and each under its key. -/
structure Enlists (ms : List Method) (r : Roster σ) : Prop where
  methods : r.members.map (·.method) = ms
  routed : ∀ before member after, r.members = before ++ member :: after →
    e.Routes (answer (before.map (·.method)) member.method) member
  indexed : r.Indexed

/-- The proxy is the one that the enhancer describes. -/
structure Describes (p : ProxyClass σ) : Prop where
  name : p.name = e.target.className ++ e.config.suffix
  target : p.target = e.target
  callbacks : p.callbacks = e.callbacks
  config : p.config = e.config
  enlists : e.Enlists answer e.target.members p.toRoster
  finds : ∀ key, p.Finds key

/-- What the examination of the members comes to, and what the filter is asked about. The first
member that offends ends it, and is reported for its key before it is for its position. -/
inductive Examined : Except Refusal (ProxyClass σ) → List Method → Prop
  | made {p : ProxyClass σ} (hclear : e.Clear answer e.target.members)
      (hp : e.Describes answer p) : Examined (.ok p) (e.asked e.target.members)
  | duplicate {before after : List Method} {m : Method}
      (hsplit : e.target.members = before ++ m :: after) (hclear : e.Clear answer before)
      (hkey : m.key ∈ before.map Method.key) :
    Examined (.error (.duplicateMember m.key)) (e.asked before)
  | outOfRange {before after : List Method} {m : Method}
      (hsplit : e.target.members = before ++ m :: after) (hclear : e.Clear answer before)
      (hkey : m.key ∉ before.map Method.key) (hcallbacks : e.callbacks ≠ [])
      (hindex : e.callbacks.length ≤ answer before m) :
    Examined (.error (.indexOutOfRange m.key (answer before m) e.callbacks.length)) (before ++ [m])

variable {e answer} {before : List Method} {m : Method} {r : Roster σ} {member : Member σ}

/-- What holds of each item and those before it still does when there is one more. -/
theorem forall_split_append_singleton {α : Type} {P : List α → α → Prop} {xs : List α} {x : α}
    (h : ∀ before y after, xs = before ++ y :: after → P before y) (hx : P xs x) :
    ∀ before y after, xs ++ [x] = before ++ y :: after → P before y := by
  intro before y after heq
  rcases List.eq_nil_or_concat' after with rfl | ⟨after', last, rfl⟩
  · obtain ⟨rfl, hlast⟩ := List.append_inj' heq rfl
    cases hlast
    exact hx
  · rw [← List.cons_append, ← List.append_assoc] at heq
    exact h before y after' (List.append_inj' heq rfl).1

theorem Clear.append_singleton (h : e.Clear answer before) (hm : ¬e.Offends answer before m) :
    e.Clear answer (before ++ [m]) :=
  forall_split_append_singleton h hm

theorem Routes.not_offends (h : e.Routes (answer before m) member)
    (hkey : m.key ∉ before.map Method.key) : ¬e.Offends answer before m := by
  rintro (hmem | ⟨hcallbacks, hindex⟩)
  · exact hkey hmem
  · cases h with
    | direct hnone => exact hcallbacks hnone
    | through hget =>
      rw [List.getElem?_eq_none hindex] at hget
      cases hget

theorem Enlists.isSome_position? (h : e.Enlists answer before r) (key : String) :
    (r.position? key).isSome ↔ key ∈ before.map Method.key := by
  rw [h.indexed.isSome_position?, ← h.methods, List.map_map, List.mem_map]
  rfl

theorem enlists_empty : e.Enlists answer [] .empty where
  methods := rfl
  routed := by
    intro before member after h
    simp [Roster.empty] at h
  indexed := Roster.indexed_empty

/-- What was enlisted stays as it is when a member is entered. -/
theorem Enlists.enter (h : e.Enlists answer before r) (hkey : m.key ∉ before.map Method.key)
    (hmember : member.method = m) (hroute : e.Routes (answer before m) member) :
    e.Enlists answer (before ++ [m]) (r.enter member) := by
  subst hmember
  constructor
  case methods => rw [Roster.enter, List.map_append, h.methods, List.map_singleton]
  case indexed => exact h.indexed.enter (mt (h.isSome_position? _).1 hkey)
  case routed =>
    rw [← h.methods] at hroute
    exact forall_split_append_singleton h.routed hroute

theorem Enlists.describes (h : e.Enlists answer e.target.members r) :
    e.Describes answer (e.proxyOf r) where
  name := rfl
  target := rfl
  callbacks := rfl
  config := rfl
  enlists := h
  finds := ProxyClass.finds h.indexed

/-! ## Runs -/

section

variable {ρ : Type} (ask : Method → StateM ρ Nat) (t : ρ)

/-- A member with a key of its own is routed, or its position is reported. The filter is asked about
it if there are callbacks. -/
theorem exec_assign (before : List Method) (m : Method) :
    (∃ member, member.method = m ∧ e.Routes (answerAfter ask t before m) member ∧
        Run.exec (afterAsking ask t (e.asked before)) (assign e.callbacks ask m) =
          (.ok member, afterAsking ask t (e.asked (before ++ [m])))) ∨
      e.callbacks ≠ [] ∧ e.callbacks.length ≤ answerAfter ask t before m ∧
        Run.exec (afterAsking ask t (e.asked before)) (assign e.callbacks ask m) =
          (.error (.indexOutOfRange m.key (answerAfter ask t before m) e.callbacks.length),
            afterAsking ask t (before ++ [m])) := by
  unfold assign asked
  split
  · next hempty =>
    exact .inl ⟨⟨m, .direct, none⟩, rfl, .direct (List.isEmpty_iff.1 hempty) rfl rfl, rfl⟩
  · next hcallbacks =>
    rw [List.isEmpty_iff] at hcallbacks
    have hask : Run.exec (ε := Refusal) (afterAsking ask t before) (monadLift (ask m)) =
        (.ok (answerAfter ask t before m), afterAsking ask t (before ++ [m])) := by
      rw [afterAsking_append_singleton]
      rfl
    rw [Run.exec_bind_of_ok hask]
    cases hget : e.callbacks[answerAfter ask t before m]? with
    | some callback =>
      exact .inl ⟨⟨m, callback.dispatch, some (answerAfter ask t before m)⟩, rfl,
        .through hget rfl rfl, rfl⟩
    | none => exact .inr ⟨hcallbacks, List.getElem?_eq_none_iff.1 hget, rfl⟩

/-- The examination goes on from the members that are enlisted already. -/
theorem exec_assignAll {after : List Method} (hsplit : e.target.members = before ++ after)
    (hclear : e.Clear (answerAfter ask t) before) (hr : e.Enlists (answerAfter ask t) before r) :
    ∃ asked result,
      Run.exec (afterAsking ask t (e.asked before)) (assignAll e.callbacks ask r after) =
          (result, afterAsking ask t asked) ∧
        e.Examined (answerAfter ask t) (result.map e.proxyOf) asked := by
  induction after generalizing before r with
  | nil =>
    rw [List.append_nil] at hsplit
    subst hsplit
    exact ⟨_, .ok r, rfl, .made hclear hr.describes⟩
  | cons m after ih =>
    rw [assignAll]
    by_cases hkey : m.key ∈ before.map Method.key
    · rw [if_pos ((hr.isSome_position? m.key).2 hkey)]
      exact ⟨_, .error _, rfl, .duplicate hsplit hclear hkey⟩
    · rw [if_neg (mt (hr.isSome_position? m.key).1 hkey)]
      rcases exec_assign ask t before m with
        ⟨member, hmember, hroute, hexec⟩ | ⟨hcallbacks, hindex, hexec⟩
      · rw [Run.exec_bind_of_ok hexec]
        refine ih ?_ (hclear.append_singleton (hroute.not_offends hkey))
          (hr.enter hkey hmember hroute)
        rw [hsplit, List.append_assoc, List.singleton_append]
      · rw [Run.exec_bind_of_error hexec]
        exact ⟨_, .error _, rfl, .outOfRange hsplit hclear hkey hcallbacks hindex⟩

theorem exec_createAsking (e : Enhancer σ) :
    ∃ asked result, Run.exec t (e.createAsking ask) = (result, afterAsking ask t asked) ∧
      e.Examined (answerAfter ask t) result asked := by
  have hclear : e.Clear (answerAfter ask t) [] := by
    intro before m after h
    simp at h
  have hsplit : e.target.members = [] ++ e.target.members := rfl
  obtain ⟨asked, result, hexec, hexamined⟩ := exec_assignAll ask t hsplit hclear enlists_empty
  rw [show e.asked [] = [] from ite_self _] at hexec
  rcases result with refusal | roster
  · exact ⟨asked, .error refusal, Run.exec_bind_of_error hexec, hexamined⟩
  · exact ⟨asked, .ok (e.proxyOf roster), Run.exec_bind_of_ok hexec, hexamined⟩

/-- A filter that only answers leaves a state as it is. -/
theorem exec_createAsking_pure (e : Enhancer σ) :
    Run.exec t (e.createAsking fun m => (pure (e.filter m) : StateM ρ Nat)) = (e.create, t) := by
  rw [create_eq]
  exact congrArg (fun x : StateM ρ _ => x.run t) e.run_createAsking

end

theorem Examined.failed_iff {result : Except Refusal (ProxyClass σ)} {asked : List Method}
    (h : e.Examined answer result asked) :
    (∃ refusal, result = .error refusal) ↔
      ∃ before m after, e.target.members = before ++ m :: after ∧ e.Offends answer before m := by
  cases h with
  | made hclear =>
    refine iff_of_false (fun ⟨_, h⟩ => by cases h) ?_
    rintro ⟨before, m, after, hsplit, hoffends⟩
    exact hclear before m after hsplit hoffends
  | duplicate hsplit _ hkey => exact iff_of_true ⟨_, rfl⟩ ⟨_, _, _, hsplit, .inl hkey⟩
  | outOfRange hsplit _ _ hcallbacks hindex =>
    exact iff_of_true ⟨_, rfl⟩ ⟨_, _, _, hsplit, .inr ⟨hcallbacks, hindex⟩⟩

/-- A proxy is made unless a member offends, and the first that does is reported. A filter with
effects answers in the state that it is in by then, and is left in the one after the last of those
that it is asked about. -/
theorem create_examines (e : Enhancer σ) :
    ((∃ refusal, e.create = .error refusal) ↔
        ∃ before m after, e.target.members = before ++ m :: after ∧
          e.Offends (fun _ => e.filter) before m) ∧
      (∃ asked, e.Examined (fun _ => e.filter) e.create asked) ∧
      ∀ (ρ : Type) (ask : Method → StateM ρ Nat) (t : ρ), ∃ asked result,
        Run.exec t (e.createAsking ask) = (result, afterAsking ask t asked) ∧
          e.Examined (answerAfter ask t) result asked := by
  have hcreate : ∃ asked, e.Examined (fun _ => e.filter) e.create asked := by
    obtain ⟨asked, result, hexec, hexamined⟩ :=
      e.exec_createAsking (fun m => (pure (e.filter m) : StateM Unit Nat)) ()
    rw [exec_createAsking_pure] at hexec
    cases (Prod.mk.inj hexec).1
    exact ⟨asked, hexamined⟩
  obtain ⟨asked, hexamined⟩ := hcreate
  exact ⟨hexamined.failed_iff, ⟨asked, hexamined⟩, fun _ ask t => e.exec_createAsking ask t⟩

end Enhancer

/-- Two methods of one key, and another one between them. -/
def repeating : Enhancer Unit where
  target := .ofBodies "T"
    [⟨⟨"run", "()V", ⟨[], [], .base 'V', []⟩⟩, fun _ => pure .null⟩,
      ⟨⟨"halt", "()V", ⟨[], [], .base 'V', []⟩⟩, fun _ => pure .null⟩,
      ⟨⟨"run", "()V", ⟨[], [], .base 'V', []⟩⟩, fun _ => pure .null⟩]
  callbacks := [.passThrough]
  filter m := if m.name = "halt" then 1 else 0

/-- The filter is not asked about the third member, which would be refused for its key. -/
example : repeating.create = .error (.indexOutOfRange "halt()V" 1 1) := rfl

end ClassUnit.Proxy
