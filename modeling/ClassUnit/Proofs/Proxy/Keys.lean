import Mathlib.Data.List.Find
import ClassUnit.Proofs.Proxy.Creation
import ClassUnit.Proofs.Proxy.Descriptors

/-! # Keys of methods

Two methods may have the same key. One of the names then goes on into the descriptor of the other,
up to the middle of a class name (`Method.key_eq_iff`), and no other loss is possible: away from
such pairs a key tells the methods, the members and the bodies of a target apart. -/

namespace ClassUnit.Proxy
open Signature (TypeTree)
open Signature.Reader (isBaseCode)
open Json (Value)

namespace Method

/-- The name of `b` ends later than that of `a` in the key that they share: inside of the first
class name in the descriptor of `a`, with nothing but codes of base types before it. -/
def EndsLater (a b : Method) : Prop :=
  ∃ codes closing part : List Char, (∀ c ∈ codes, isBaseCode c) ∧ (closing = [] ∨ closing = [')']) ∧
    b.name.toList = a.name.toList ++ '(' :: (codes ++ closing ++ 'L' :: part) ∧
    a.descriptor.toList = '(' :: (codes ++ closing ++ 'L' :: part) ++ b.descriptor.toList

/-! ## Where a name can end inside of a descriptor -/

/-- A text without brackets that ends before a parenthesis goes past a type or ends inside of a
class name. -/
theorem type_of_append_paren {t : TypeTree} (h : t.WellFormed depth)
    (herased : genericPart t = none) {w rest more : List Char} (hw : '[' ∉ w)
    (heq : w ++ '(' :: rest = t.spelling ++ more) :
    (∃ code w', isBaseCode code ∧ w = code :: w' ∧ w' ++ '(' :: rest = more) ∨
      ∃ part, w = 'L' :: part := by
  cases t with
  | base code =>
    have hcode : isBaseCode code := h.2
    cases w with
    | nil =>
      obtain ⟨rfl, -⟩ : '(' = code ∧ rest = more := by simpa [TypeTree.spelling] using heq
      exact absurd hcode (by decide)
    | cons c w =>
      obtain ⟨rfl, hmore⟩ : c = code ∧ w ++ '(' :: rest = more := by
        simpa [TypeTree.spelling] using heq
      exact .inl ⟨c, w, hcode, rfl, hmore⟩
  | typeVariable name => cases herased
  | array element =>
    cases w with
    | nil => simp [TypeTree.spelling] at heq
    | cons c w =>
      obtain ⟨rfl, -⟩ : c = '[' ∧ w ++ '(' :: rest = element.spelling ++ more := by
        simpa [TypeTree.spelling] using heq
      exact absurd List.mem_cons_self hw
  | classType outer inners =>
    cases w with
    | nil => simp [TypeTree.spelling] at heq
    | cons c w =>
      simp only [TypeTree.spelling, List.cons_append, List.cons.injEq] at heq
      exact .inr ⟨w, by rw [heq.1]⟩

theorem types_of_append_paren {ts : List TypeTree} (h : ∀ t ∈ ts, t.WellFormed 0)
    (herased : ∀ t ∈ ts, genericPart t = none) {w rest more : List Char} (hw : '[' ∉ w)
    (heq : w ++ '(' :: rest = ts.flatMap TypeTree.spelling ++ more) :
    ∃ codes, (∀ c ∈ codes, isBaseCode c) ∧
      ((∃ w', w = codes ++ w' ∧ w' ++ '(' :: rest = more) ∨ ∃ part, w = codes ++ 'L' :: part) := by
  induction ts generalizing w with
  | nil => exact ⟨[], by simp, .inl ⟨w, rfl, heq⟩⟩
  | cons t ts ih =>
    rw [List.flatMap_cons, List.append_assoc] at heq
    rcases type_of_append_paren (h t List.mem_cons_self) (herased t List.mem_cons_self) hw heq
      with ⟨code, w, hcode, rfl, hmore⟩ | ⟨part, rfl⟩
    · obtain ⟨codes, hcodes, hcases⟩ := ih (fun u hu => h u (List.mem_cons_of_mem _ hu))
        (fun u hu => herased u (List.mem_cons_of_mem _ hu))
        (fun hmem => hw (List.mem_cons_of_mem _ hmem)) hmore
      refine ⟨code :: codes, ?_, ?_⟩
      · rintro c (_ | ⟨_, hc⟩)
        · exact hcode
        · exact hcodes c hc
      · rcases hcases with ⟨w', rfl, hrest⟩ | ⟨part, rfl⟩
        · exact .inl ⟨w', rfl, hrest⟩
        · exact .inr ⟨part, rfl⟩
    · exact ⟨[], by simp, .inr ⟨part, rfl⟩⟩

/-- A descriptor that is cut before a second parenthesis is cut inside of its first class name. -/
theorem Accepted.cut {m : Method} (h : m.Accepted) {w rest : List Char} (hne : w ≠ [])
    (hw : '[' ∉ w) (heq : w ++ '(' :: rest = m.descriptor.toList) :
    ∃ codes closing part, (∀ c ∈ codes, isBaseCode c) ∧ (closing = [] ∨ closing = [')']) ∧
      w = '(' :: (codes ++ closing ++ 'L' :: part) := by
  rw [h.toList_descriptor] at heq
  obtain ⟨c, w, rfl⟩ := List.exists_cons_of_ne_nil hne
  rw [List.cons_append, List.cons.injEq] at heq
  obtain ⟨rfl, heq⟩ := heq
  have hw' : '[' ∉ w := fun hmem => hw (List.mem_cons_of_mem _ hmem)
  -- The cut is behind the parameters, and then inside of the result, or it is inside of one.
  obtain ⟨codes, hcodes, ⟨w, rfl, hend⟩ | ⟨part, rfl⟩⟩ :=
    types_of_append_paren h.wellFormed.parameters h.erased.parameters hw' heq
  · cases w with
    | nil => simp at hend
    | cons c w =>
      rw [List.cons_append, List.cons.injEq] at hend
      obtain ⟨rfl, hresult⟩ := hend
      have hw'' : '[' ∉ w := fun hmem => hw' (by simp [hmem])
      rw [← List.append_nil m.result.spelling] at hresult
      rcases type_of_append_paren h.wellFormed.result h.erased.result hw'' hresult
        with ⟨_, _, _, _, hnil⟩ | ⟨part, rfl⟩
      · simp at hnil
      · exact ⟨codes, [')'], part, hcodes, .inr rfl, by simp⟩
  · exact ⟨codes, [], part, hcodes, .inl rfl, by simp⟩

/-! ## Equal keys -/

theorem toList_key (m : Method) : m.key.toList = m.name.toList ++ m.descriptor.toList := by
  simp [key]

theorem Accepted.bracket_notMem {m : Method} (h : m.Accepted) : '[' ∉ m.name.toList := by
  intro hmem
  have hname := h.validName
  simp only [Method.validName, Bool.and_eq_true, Bool.not_eq_true', List.any_eq_false] at hname
  exact absurd (hname.2 '[' hmem) (by decide)

/-- Of two methods with one key, either both have the same name, or one name ends later. -/
theorem Accepted.endsLater {a b : Method} (ha : a.Accepted) (hb : b.Accepted) {w : List Char}
    (hname : b.name.toList = a.name.toList ++ w)
    (hdescriptor : a.descriptor.toList = w ++ b.descriptor.toList) :
    (a.name = b.name ∧ a.descriptor = b.descriptor) ∨ EndsLater a b := by
  by_cases hne : w = []
  · subst hne
    rw [List.append_nil] at hname
    exact .inl ⟨String.toList_inj.1 hname.symm, String.toList_inj.1 hdescriptor⟩
  · have hw : '[' ∉ w := fun hmem =>
      hb.bracket_notMem (by rw [hname]; exact List.mem_append_right _ hmem)
    have hcut := hdescriptor.symm
    rw [hb.toList_descriptor] at hcut
    obtain ⟨codes, closing, part, hcodes, hclosing, rfl⟩ := ha.cut hne hw hcut
    exact .inr ⟨codes, closing, part, hcodes, hclosing, hname, hdescriptor⟩

theorem EndsLater.key_eq {a b : Method} (h : EndsLater a b) : a.key = b.key := by
  obtain ⟨codes, closing, part, -, -, hname, hdescriptor⟩ := h
  rw [← String.toList_inj, toList_key, toList_key, hname, hdescriptor]
  simp

theorem EndsLater.name_ne {a b : Method} (h : EndsLater a b) : a.name ≠ b.name := by
  obtain ⟨codes, closing, part, -, -, hname, -⟩ := h
  intro heq
  rw [heq] at hname
  simpa using congrArg List.length hname

/-- Methods share a key if they share name and descriptor, or if one name ends later. -/
theorem key_eq_iff {a b : Method} (ha : a.Accepted) (hb : b.Accepted) :
    a.key = b.key ↔
      (a.name = b.name ∧ a.descriptor = b.descriptor) ∨ EndsLater a b ∨ EndsLater b a := by
  constructor
  · intro h
    rw [← String.toList_inj, toList_key, toList_key, List.append_eq_append_iff] at h
    rcases h with ⟨w, hname, hdescriptor⟩ | ⟨w, hname, hdescriptor⟩
    · rcases ha.endsLater hb hname hdescriptor with hsame | hlater
      · exact .inl hsame
      · exact .inr (.inl hlater)
    · rcases hb.endsLater ha hname hdescriptor with ⟨hname, hdescriptor⟩ | hlater
      · exact .inl ⟨hname.symm, hdescriptor.symm⟩
      · exact .inr (.inr hlater)
  · rintro (⟨hname, hdescriptor⟩ | h | h)
    · rw [key, key, hname, hdescriptor]
    · exact h.key_eq
    · exact h.key_eq.symm

/-- A name without a parenthesis ends where it ends in every key. -/
theorem not_endsLater {a b : Method} (h : '(' ∉ b.name.toList) : ¬EndsLater a b := by
  rintro ⟨codes, closing, part, -, -, hname, -⟩
  exact h (by rw [hname]; simp)

end Method

/-! ## What keys tell apart -/

section
open Method

variable {σ : Type} {S : Method → Prop}

/-- No name in `S` ends later than another one, in a key that both share. -/
def NamesEndAlike (S : Method → Prop) : Prop := ∀ a b, S a → S b → ¬EndsLater a b

/-- A key stands for one name and one descriptor. -/
def KeysIdentify (S : Method → Prop) : Prop :=
  ∀ a b, S a → S b → a.key = b.key → a.name = b.name ∧ a.descriptor = b.descriptor

/-- A duplicate is reported only where two members of the target share name and descriptor. -/
def DuplicatesAgree (S : Method → Prop) : Prop :=
  ∀ (σ : Type) (e : Enhancer σ) (key : String), (∀ m ∈ e.target.members, S m) →
    e.create = .error (.duplicateMember key) →
      ∃ a b, [a, b].Sublist e.target.members ∧ a.name = b.name ∧ a.descriptor = b.descriptor

/-- The last body that was given for the name and the descriptor of a method. -/
def lastBody (bodies : List (Body σ)) (m : Method) : Option (Body σ) :=
  bodies.reverse.find? fun body =>
    body.method.name == m.name && body.method.descriptor == m.descriptor

/-- A method runs the last body of its own, and for want of one none. -/
def BodiesOwned (S : Method → Prop) : Prop :=
  ∀ (σ : Type) (className : String) (bodies : List (Body σ)) (m : Method) (args : List Value),
    (∀ body ∈ bodies, S body.method) → S m →
      (Target.ofBodies className bodies).invoke m args =
        match lastBody bodies m with
        | some body => body.run args
        | none => throw (.noSuchMethod (qualified className m.key))

theorem keysIdentify_iff (hS : ∀ m, S m → m.Accepted) : KeysIdentify S ↔ NamesEndAlike S := by
  constructor
  · intro h a b ha hb hlater
    exact hlater.name_ne (h a b ha hb hlater.key_eq).1
  · intro h a b ha hb hkey
    rcases (key_eq_iff (hS a ha) (hS b hb)).1 hkey with hsame | hlater | hlater
    · exact hsame
    · exact absurd hlater (h a b ha hb)
    · exact absurd hlater (h b a hb ha)

theorem KeysIdentify.duplicatesAgree (h : KeysIdentify S) : DuplicatesAgree S := by
  intro σ e key hS hcreate
  obtain ⟨a, b, hsub, ha, hb⟩ := Enhancer.duplicateMember_of_create hcreate
  have hmem : ∀ m ∈ [a, b], S m := fun m hm => hS m (hsub.subset hm)
  exact ⟨a, b, hsub, h a b (hmem a (by simp)) (hmem b (by simp)) (ha.trans hb.symm)⟩

theorem KeysIdentify.bodiesOwned (h : KeysIdentify S) : BodiesOwned S := by
  intro σ className bodies m args hS hm
  have hfind : bodies.reverse.find? (·.method.key == m.key) = lastBody bodies m := by
    apply List.find?_congr
    intro body hbody
    have hbody := hS body (List.mem_reverse.1 hbody)
    rw [Bool.eq_iff_iff]
    simp only [beq_iff_eq, Bool.and_eq_true]
    refine ⟨h _ _ hbody hm, fun hsame => ?_⟩
    rw [key, key, hsame.1, hsame.2]
  rw [← hfind]
  rfl

/-- A target of two methods with one key has a duplicate. -/
theorem create_of_key_eq {e : Enhancer σ} {a b : Method} (hmembers : e.target.members = [a, b])
    (hcallbacks : e.callbacks = []) (h : a.key = b.key) :
    e.create = .error (.duplicateMember b.key) := by
  rw [Enhancer.create_eq, hmembers]
  simp [Enhancer.assigned, Enhancer.route, hcallbacks, h, Except.bind, Except.map]

theorem DuplicatesAgree.namesEndAlike (h : DuplicatesAgree S) : NamesEndAlike S := by
  intro a b ha hb hlater
  let target : Target Unit := ⟨"", [a, b], fun _ _ => pure .null⟩
  have hS : ∀ m ∈ target.members, S m := by
    rintro m (_ | ⟨_, _ | ⟨_, ⟨⟩⟩⟩)
    · exact ha
    · exact hb
  obtain ⟨a', b', hsub, hname, -⟩ := h Unit { target } b.key hS
    (create_of_key_eq rfl rfl hlater.key_eq)
  have hlist : [a', b'] = [a, b] := hsub.eq_of_length rfl
  rw [List.cons.injEq, List.cons.injEq] at hlist
  obtain ⟨rfl, rfl, -⟩ := hlist
  exact hlater.name_ne hname

theorem BodiesOwned.namesEndAlike (h : BodiesOwned S) : NamesEndAlike S := by
  intro a b ha hb hlater
  let body : Body Unit := ⟨a, fun _ => pure .null⟩
  have hnone : lastBody [body] b = none := by
    simp [lastBody, body, hlater.name_ne]
  have hrun := h Unit "" [body] b [] (by simpa [body] using ha) hb
  rw [hnone] at hrun
  have hfound : (Target.ofBodies "" [body]).invoke b [] = pure Value.null := by
    simp [Target.ofBodies, body, hlater.key_eq]
  rw [hfound] at hrun
  have hresult := congrArg (fun x => (Run.exec () x).1) hrun
  cases hresult

/-- Where names end alike, and only there, keys stand for methods, duplicates are what they are
reported to be, and no method runs the body of another one. -/
theorem keys_tell_apart_iff (hS : ∀ m, S m → m.Accepted) :
    (KeysIdentify S ↔ NamesEndAlike S) ∧ (DuplicatesAgree S ↔ NamesEndAlike S) ∧
      (BodiesOwned S ↔ NamesEndAlike S) := by
  have hkeys := keysIdentify_iff hS
  refine ⟨hkeys, ⟨fun h => h.namesEndAlike, fun h => ?_⟩, ⟨fun h => h.namesEndAlike, fun h => ?_⟩⟩
  · exact (hkeys.2 h).duplicatesAgree
  · exact (hkeys.2 h).bodiesOwned

/-- A method without a parenthesis in its name. -/
def Method.Plain (m : Method) : Prop := m.Accepted ∧ '(' ∉ m.name.toList

theorem keys_tell_apart_of_plain :
    Plain ⟨"run", "(I)V", ⟨[], [.base 'I'], .base 'V', []⟩⟩ ∧
      KeysIdentify Plain ∧ DuplicatesAgree Plain ∧ BodiesOwned Plain := by
  have hplain : NamesEndAlike Plain := fun _ _ _ hb => not_endsLater hb.2
  obtain ⟨hkeys, hduplicates, hbodies⟩ := keys_tell_apart_iff (S := Plain) fun _ h => h.1
  exact ⟨⟨rfl, by decide⟩, hkeys.2 hplain, hduplicates.2 hplain, hbodies.2 hplain⟩

/-- Returns an instance of a class whose name looks like a descriptor. -/
def Method.early : Method := ⟨"a", "()L()Lx;", ⟨[], [], .classType (.mk "()Lx" []) [], []⟩⟩

/-- Its name looks like the beginning of a descriptor. -/
def Method.late : Method := ⟨"a()L", "()Lx;", ⟨[], [], .classType (.mk "x" []) [], []⟩⟩

theorem not_keys_tell_apart :
    (early.Accepted ∧ late.Accepted ∧ early.key = late.key ∧ early.name ≠ late.name) ∧
      ¬KeysIdentify Accepted ∧ ¬DuplicatesAgree Accepted ∧ ¬BodiesOwned Accepted := by
  have hearly : early.Accepted := rfl
  have hlate : late.Accepted := rfl
  have hlater : EndsLater early late := ⟨[], [')'], [], by simp, .inr rfl, rfl, rfl⟩
  refine ⟨⟨hearly, hlate, rfl, by decide⟩, fun h => ?_, fun h => ?_, fun h => ?_⟩
  · exact hlater.name_ne (h _ _ hearly hlate hlater.key_eq).1
  · exact h.namesEndAlike _ _ hearly hlate hlater
  · exact h.namesEndAlike _ _ hearly hlate hlater

end

end ClassUnit.Proxy
