import Mathlib.Data.List.Forall2
import Mathlib.Data.List.Induction
import Mathlib.Data.List.Nodup
import ClassUnit.Proxy.Synthesis

/-! # Creation of proxies

What an enhancer makes, one member at a time. A member is refused for its key before it is
routed, and the first member that is refused is reported. Each of the others is entered under its
key, which leads to it from then on (`Roster.Indexed`). -/

namespace ClassUnit.Proxy

/-! ## Rosters -/

namespace Roster

variable {σ : Type} {r : Roster σ} {member : Member σ} {key : String}

/-- Each key of the index leads to the member that has it, and to no other. -/
def Indexed (r : Roster σ) : Prop :=
  ∀ key i, r.position? key = some i ↔
    ∃ member, r.members[i]? = some member ∧ member.method.key = key

/-- The members, entered one after the other. -/
def ofMembers (members : List (Member σ)) : Roster σ := members.foldl enter empty

theorem position?_enter : (r.enter member).position? key =
    if key = member.method.key then some r.members.length else r.position? key := by
  rw [position?, enter, List.lookup_cons]
  by_cases h : key = member.method.key
  · simp [h]
  · simp [h, beq_false_of_ne h, position?]

theorem isSome_position?_enter : ((r.enter member).position? key).isSome ↔
    key = member.method.key ∨ (r.position? key).isSome := by
  rw [position?_enter]
  split <;> simp [*]

theorem ofMembers_append_singleton (members : List (Member σ)) (member : Member σ) :
    ofMembers (members ++ [member]) = (ofMembers members).enter member :=
  List.foldl_append

theorem members_ofMembers (members : List (Member σ)) : (ofMembers members).members = members := by
  induction members using List.reverseRecOn with
  | nil => rfl
  | append_singleton members member ih => rw [ofMembers_append_singleton, enter, ih]

theorem indexed_empty : (empty : Roster σ).Indexed := by
  intro key i
  simp [position?, empty]

theorem Indexed.isSome_position? (h : r.Indexed) :
    (r.position? key).isSome ↔ ∃ member ∈ r.members, member.method.key = key := by
  simp only [Option.isSome_iff_exists, h key, List.mem_iff_getElem?]
  exact ⟨fun ⟨i, member, hi, hkey⟩ => ⟨member, ⟨i, hi⟩, hkey⟩,
    fun ⟨member, ⟨i, hi⟩, hkey⟩ => ⟨i, member, hi, hkey⟩⟩

/-- A member with a new key is entered after the others, which stay where they are. -/
theorem Indexed.enter (h : r.Indexed) (hnew : ¬(r.position? member.method.key).isSome) :
    (r.enter member).Indexed := by
  intro key i
  rw [position?_enter, Roster.enter, List.getElem?_append]
  by_cases hkey : key = member.method.key
  · rw [if_pos hkey]
    constructor
    · rintro ⟨⟩
      exact ⟨member, by simp, hkey.symm⟩
    · rintro ⟨other, hother, rfl⟩
      split at hother
      · exact absurd (h.isSome_position?.2 ⟨other, List.mem_of_getElem? hother, hkey⟩) hnew
      · next hi =>
        have hlast := (List.getElem?_eq_some_iff.1 hother).1
        rw [List.length_singleton] at hlast
        exact congrArg some (by omega)
  · rw [if_neg hkey, h key i]
    refine exists_congr fun other => and_congr_left fun hother => ?_
    split
    · exact .rfl
    · next hi =>
      refine iff_of_false (fun hsome => hi (List.getElem?_eq_some_iff.1 hsome).1) fun hsome => ?_
      obtain rfl := List.mem_singleton.1 (List.mem_of_getElem? hsome)
      exact hkey hother.symm

theorem Indexed.nodup_keys (h : r.Indexed) : (r.members.map (·.method.key)).Nodup := by
  rw [List.nodup_iff_getElem?_ne_getElem?]
  intro i j hij hj heq
  rw [List.length_map] at hj
  have hlater := (h r.members[j].method.key j).2 ⟨_, List.getElem?_eq_getElem hj, rfl⟩
  rw [List.getElem?_map, List.getElem?_map, List.getElem?_eq_getElem hj] at heq
  have hearlier := (h r.members[j].method.key i).2 (Option.map_eq_some_iff.1 heq)
  cases hlater.symm.trans hearlier
  exact Nat.lt_irrefl _ hij

theorem indexed_ofMembers {members : List (Member σ)}
    (h : (members.map (·.method.key)).Nodup) : (ofMembers members).Indexed := by
  induction members using List.reverseRecOn with
  | nil => exact indexed_empty
  | append_singleton members member ih =>
    rw [List.map_append, List.map_singleton, ← List.concat_eq_append, List.nodup_concat] at h
    obtain ⟨hnew, hnodup⟩ := h
    rw [ofMembers_append_singleton]
    refine (ih hnodup).enter fun hsome => hnew ?_
    obtain ⟨other, hother, hkey⟩ := (ih hnodup).isSome_position?.1 hsome
    rw [members_ofMembers] at hother
    exact List.mem_map.2 ⟨other, hother, hkey⟩

end Roster

namespace Enhancer

variable {σ : Type} {e : Enhancer σ} {p : ProxyClass σ}

/-- How a member is routed, whatever the members before it. -/
def route (e : Enhancer σ) (m : Method) : Except Refusal (Member σ) :=
  if e.callbacks.isEmpty then .ok ⟨m, .direct, none⟩
  else
    match e.callbacks[e.filter m]? with
    | some callback => .ok ⟨m, callback.dispatch, some (e.filter m)⟩
    | none => .error (.indexOutOfRange m.key (e.filter m) e.callbacks.length)

/-- The members of a proxy, given the keys that are taken. -/
def assigned (e : Enhancer σ) (seen : List String) : List Method → Except Refusal (List (Member σ))
  | [] => .ok []
  | m :: ms =>
    if m.key ∈ seen then .error (.duplicateMember m.key)
    else (e.route m).bind fun member =>
      (e.assigned (m.key :: seen) ms).map (member :: ·)

theorem method_of_route {m : Method} {member : Member σ} (h : e.route m = .ok member) :
    member.method = m := by
  unfold route at h
  split at h
  · cases h
    rfl
  · split at h
    · cases h
      rfl
    · cases h

section

variable {μ : Type → Type} [Monad μ] [LawfulMonad μ]

theorem run_assign (e : Enhancer σ) (m : Method) :
    (assign e.callbacks (fun m => (pure (e.filter m) : μ Nat)) m).run = pure (e.route m) := by
  unfold assign route
  split
  · rfl
  · rw [liftM_pure, pure_bind]
    cases e.callbacks[e.filter m]? <;> rfl

/-- Where the filter has no effects, the members are entered as they are assigned. The keys in the
index are those that are taken. -/
theorem run_assignAll (e : Enhancer σ) {r : Roster σ} {seen : List String}
    (hseen : ∀ key, (r.position? key).isSome ↔ key ∈ seen) (ms : List Method) :
    (assignAll e.callbacks (fun m => (pure (e.filter m) : μ Nat)) r ms).run =
      pure ((e.assigned seen ms).map (·.foldl Roster.enter r)) := by
  induction ms generalizing r seen with
  | nil => rfl
  | cons m ms ih =>
    rw [assignAll, assigned]
    by_cases h : m.key ∈ seen
    · rw [if_pos ((hseen m.key).2 h), if_pos h]
      rfl
    · rw [if_neg (mt (hseen m.key).1 h), if_neg h, ExceptT.run_bind, run_assign, pure_bind]
      cases hroute : e.route m with
      | error refusal => rfl
      | ok member =>
        have hentered (key : String) :
            ((r.enter member).position? key).isSome ↔ key ∈ m.key :: seen := by
          rw [Roster.isSome_position?_enter, hseen, method_of_route hroute, List.mem_cons]
        refine (ih hentered).trans ?_
        cases e.assigned (m.key :: seen) ms <;> rfl

theorem run_createAsking (e : Enhancer σ) :
    (e.createAsking fun m => (pure (e.filter m) : μ Nat)).run =
      pure ((e.assigned [] e.target.members).map fun members =>
        e.proxyOf (.ofMembers members)) := by
  have hnone (key : String) : ((Roster.empty (σ := σ)).position? key).isSome ↔ key ∈ [] := by
    simp [Roster.position?, Roster.empty]
  rw [createAsking, ExceptT.run_bind, e.run_assignAll hnone, pure_bind]
  cases e.assigned [] e.target.members <;> rfl

end

theorem create_eq (e : Enhancer σ) :
    e.create = (e.assigned [] e.target.members).map fun members =>
      e.proxyOf (.ofMembers members) :=
  e.run_createAsking

theorem assigned_cons_eq_ok_iff {seen : List String} {m : Method} {ms : List Method}
    {members : List (Member σ)} :
    e.assigned seen (m :: ms) = .ok members ↔
      m.key ∉ seen ∧ ∃ member rest, e.route m = .ok member ∧
        e.assigned (m.key :: seen) ms = .ok rest ∧ members = member :: rest := by
  rw [assigned]
  by_cases hseen : m.key ∈ seen
  · simp [hseen]
  cases e.route m <;> cases e.assigned (m.key :: seen) ms <;>
    simp [hseen, Except.bind, Except.map, eq_comm]

theorem assigned_cons_eq_error_iff {seen : List String} {m : Method} {ms : List Method}
    {refusal : Refusal} :
    e.assigned seen (m :: ms) = .error refusal ↔
      (m.key ∈ seen ∧ refusal = .duplicateMember m.key) ∨
        (m.key ∉ seen ∧ (e.route m = .error refusal ∨
          (∃ member, e.route m = .ok member) ∧
            e.assigned (m.key :: seen) ms = .error refusal)) := by
  rw [assigned]
  by_cases hseen : m.key ∈ seen
  · simp [hseen, eq_comm]
  cases e.route m <;> cases e.assigned (m.key :: seen) ms <;>
    simp [hseen, Except.bind, Except.map]

theorem map_method_of_routes {ms : List Method} {members : List (Member σ)}
    (h : List.Forall₂ (fun m member => e.route m = .ok member) ms members) :
    members.map (·.method) = ms := by
  induction h with
  | nil => rfl
  | cons hroute _ ih => rw [List.map_cons, ih, method_of_route hroute]

theorem route_of_mem_routes {ms : List Method} {members : List (Member σ)}
    (h : List.Forall₂ (fun m member => e.route m = .ok member) ms members) {member : Member σ}
    (hmember : member ∈ members) : e.route member.method = .ok member := by
  induction h with
  | nil => cases hmember
  | cons hroute _ ih =>
    rcases List.mem_cons.1 hmember with rfl | hmember
    · rw [method_of_route hroute, hroute]
    · exact ih hmember

theorem route_ne_duplicateMember (m : Method) (key : String) :
    e.route m ≠ .error (.duplicateMember key) := by
  intro h
  unfold route at h
  split at h
  · cases h
  · split at h <;> cases h

/-- Members are assigned if their keys are new and distinct and each has a route. -/
theorem assigned_eq_ok_iff {seen : List String} {ms : List Method} {members : List (Member σ)} :
    e.assigned seen ms = .ok members ↔
      (ms.map Method.key).Nodup ∧ (∀ m ∈ ms, m.key ∉ seen) ∧
        List.Forall₂ (fun m member => e.route m = .ok member) ms members := by
  induction ms generalizing seen members with
  | nil => simp [assigned, eq_comm]
  | cons m ms ih =>
    rw [assigned_cons_eq_ok_iff, List.map_cons, List.nodup_cons]
    constructor
    · rintro ⟨hseen, member, rest, hroute, hrest, rfl⟩
      obtain ⟨hnodup, hnew, hroutes⟩ := ih.1 hrest
      refine ⟨⟨fun hmem => ?_, hnodup⟩, ?_, .cons hroute hroutes⟩
      · obtain ⟨m', hm', hkey⟩ := List.mem_map.1 hmem
        exact hnew m' hm' (hkey ▸ List.mem_cons_self)
      · rintro m' (_ | ⟨_, hm'⟩)
        · exact hseen
        · exact fun hmem => hnew m' hm' (List.mem_cons_of_mem _ hmem)
    · rintro ⟨⟨hkey, hnodup⟩, hnew, hroutes⟩
      cases hroutes with
      | @cons _ member _ rest hroute hroutes =>
        refine ⟨hnew m List.mem_cons_self, member, rest, hroute, ih.2 ⟨hnodup, ?_, hroutes⟩, rfl⟩
        intro m' hm' hmem
        rcases List.mem_cons.1 hmem with hsame | hmem
        · exact hkey (List.mem_map.2 ⟨m', hm', hsame⟩)
        · exact hnew m' (List.mem_cons_of_mem _ hm') hmem

/-- A key is reported as that of a duplicate only if it has been met before. -/
theorem assigned_duplicateMember {seen : List String} {ms : List Method} {key : String}
    (h : e.assigned seen ms = .error (.duplicateMember key)) :
    (key ∈ seen ∧ ∃ b ∈ ms, b.key = key) ∨
      ∃ a b, [a, b].Sublist ms ∧ a.key = key ∧ b.key = key := by
  induction ms generalizing seen with
  | nil => cases h
  | cons m ms ih =>
    rcases assigned_cons_eq_error_iff.1 h with ⟨hseen, hkey⟩ | ⟨-, hroute | ⟨-, hrest⟩⟩
    · cases hkey
      exact .inl ⟨hseen, m, List.mem_cons_self, rfl⟩
    · exact absurd hroute (route_ne_duplicateMember m key)
    · rcases ih hrest with ⟨hmem, b, hb, hkey⟩ | ⟨a, b, hsub, ha, hb⟩
      · rcases List.mem_cons.1 hmem with rfl | hmem
        · exact .inr ⟨m, b, .cons_cons _ (List.singleton_sublist.2 hb), rfl, hkey⟩
        · exact .inl ⟨hmem, b, List.mem_cons_of_mem _ hb, hkey⟩
      · exact .inr ⟨a, b, hsub.cons _, ha, hb⟩

theorem create_eq_ok_iff :
    e.create = .ok p ↔
      ∃ members, e.assigned [] e.target.members = .ok members ∧
        e.proxyOf (.ofMembers members) = p := by
  rw [create_eq]
  cases e.assigned [] e.target.members <;> simp [Except.map]

theorem assigned_of_create (h : e.create = .ok p) :
    e.assigned [] e.target.members = .ok p.members := by
  obtain ⟨members, hassigned, rfl⟩ := create_eq_ok_iff.1 h
  rwa [proxyOf, Roster.members_ofMembers]

theorem target_of_create (h : e.create = .ok p) : p.target = e.target := by
  obtain ⟨members, -, rfl⟩ := create_eq_ok_iff.1 h
  rfl

theorem callbacks_of_create (h : e.create = .ok p) : p.callbacks = e.callbacks := by
  obtain ⟨members, -, rfl⟩ := create_eq_ok_iff.1 h
  rfl

theorem config_of_create (h : e.create = .ok p) : p.config = e.config := by
  obtain ⟨members, -, rfl⟩ := create_eq_ok_iff.1 h
  rfl

theorem name_of_create (h : e.create = .ok p) :
    p.name = e.target.className ++ e.config.suffix := by
  obtain ⟨members, -, rfl⟩ := create_eq_ok_iff.1 h
  rfl

/-- A proxy is made if the keys of the members are distinct and each member has a route. -/
theorem exists_create_of_routes {f : Method → Member σ}
    (hkeys : (e.target.members.map Method.key).Nodup)
    (hroutes : ∀ m ∈ e.target.members, e.route m = .ok (f m)) :
    ∃ p, e.create = .ok p ∧ p.members = e.target.members.map f := by
  have hassigned : e.assigned [] e.target.members = .ok (e.target.members.map f) := by
    refine assigned_eq_ok_iff.2 ⟨hkeys, fun _ _ => List.not_mem_nil, ?_⟩
    rw [List.forall₂_map_right_iff, List.forall₂_same]
    exact hroutes
  exact ⟨_, create_eq_ok_iff.2 ⟨_, hassigned, rfl⟩, Roster.members_ofMembers _⟩

/-- Two members of a target share the key that is reported. -/
theorem duplicateMember_of_create {key : String}
    (h : e.create = .error (.duplicateMember key)) :
    ∃ a b, [a, b].Sublist e.target.members ∧ a.key = key ∧ b.key = key := by
  rw [create_eq] at h
  cases hassigned : e.assigned [] e.target.members with
  | ok members =>
    rw [hassigned] at h
    cases h
  | error refusal =>
    rw [hassigned] at h
    cases h
    rcases assigned_duplicateMember hassigned with ⟨hmem, -⟩ | h
    · cases hmem
    · exact h

/-- A proxy has the members of its target, in their order. -/
theorem map_method_of_create (h : e.create = .ok p) :
    p.members.map (·.method) = e.target.members := by
  obtain ⟨-, -, hroutes⟩ := assigned_eq_ok_iff.1 (assigned_of_create h)
  exact map_method_of_routes hroutes

theorem exists_member_of_create (h : e.create = .ok p) {m : Method} (hm : m ∈ e.target.members) :
    ∃ member ∈ p.members, member.method = m := by
  rw [← map_method_of_create h] at hm
  exact List.mem_map.1 hm

theorem method_mem_of_create (h : e.create = .ok p) {member : Member σ}
    (hmember : member ∈ p.members) : member.method ∈ e.target.members := by
  rw [← map_method_of_create h]
  exact List.mem_map_of_mem hmember

/-- Every member of a proxy has the route that it was given. -/
theorem route_of_mem_create (h : e.create = .ok p) {member : Member σ}
    (hmember : member ∈ p.members) : e.route member.method = .ok member := by
  obtain ⟨-, -, hroutes⟩ := assigned_eq_ok_iff.1 (assigned_of_create h)
  exact route_of_mem_routes hroutes hmember

/-- The keys of the members of a proxy tell them apart. -/
theorem nodup_keys_of_create (h : e.create = .ok p) :
    (p.members.map (·.method.key)).Nodup := by
  obtain ⟨hnodup, -⟩ := assigned_eq_ok_iff.1 (assigned_of_create h)
  rw [← map_method_of_create h, List.map_map] at hnodup
  exact hnodup

theorem indexed_of_create (h : e.create = .ok p) : p.Indexed := by
  have hnodup := nodup_keys_of_create h
  obtain ⟨members, -, rfl⟩ := create_eq_ok_iff.1 h
  rw [proxyOf, Roster.members_ofMembers] at hnodup
  exact Roster.indexed_ofMembers hnodup

end Enhancer

end ClassUnit.Proxy
