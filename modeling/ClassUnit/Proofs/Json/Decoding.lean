import ClassUnit.Proofs.Json.ReadBack

/-! # Decoding printed values

What decoders make of the values that are read. A printed value is either read as a whole, or it is
nested too deep and cut short, and then a decoder that takes in all of it refuses it
(`decode_compact`, `decode_pretty`). A record that is not closed is decoded as if its other members
were not there (`Form.decode_skip`), and so is tagged content (`adjacent_skip`). -/

namespace ClassUnit.Json
open Reader (maxNesting)

section

variable {origin : Origin} {members : List (String × Value)}

@[simp]
theorem pure_eq_ok (a : α) : (pure a : Decoded α) = .ok a := rfl

@[simp]
theorem ok_bind (a : α) (f : α → Decoded β) : ((.ok a : Decoded α) >>= f) = f a := rfl

@[simp]
theorem once_none (field : String) (a : α) : once field none (.ok a) = .ok (some a) := rfl

@[simp]
theorem present_some (failure : Failure) (a : α) : present failure (some a) = .ok a := rfl

@[simp]
theorem string_string (s : String) : string (.string s) = .ok s := rfl

@[simp]
theorem bool_bool (b : Bool) : bool (.bool b) = .ok b := rfl

@[simp]
theorem character_singleton (c : Char) : character (.string (.singleton c)) = .ok c := by
  simp [character]

theorem mapM_map_eq_ok {item : Value → Decoded α} {f : α → Value} {as : List α}
    (h : ∀ a ∈ as, item (f a) = .ok a) : (as.map f).mapM item = .ok as := by
  induction as with
  | nil => rfl
  | cons a as ih =>
    rw [List.map_cons, List.mapM_cons, h a List.mem_cons_self,
      ih fun b hb => h b (List.mem_cons_of_mem _ hb)]
    rfl

/-- The list of what decodes to the items of a list decodes to the list. -/
theorem list_map {item : Value → Decoded α} {f : α → Value} {as : List α}
    (h : ∀ a ∈ as, item (f a) = .ok a) : list item (.array (as.map f)) = .ok as :=
  mapM_map_eq_ok h

/-- A tag in front of the other members is split from them. -/
theorem tagged_object (title : String) {tag name : String} {variants : List String}
    (hname : name ∈ variants) (hmembers : ∀ m ∈ members, m.1 ≠ tag)
    (hlegible : membersLegible members) :
    tagged origin title tag variants (.object ((tag, .string name) :: members)) =
      .ok (name, .object members) := by
  have htag : members.filter (·.1 == tag) = [] := by
    simpa [List.filter_eq_nil_iff] using hmembers
  have hrest : members.filter (·.1 != tag) = members := by
    simpa [List.filter_eq_self] using hmembers
  cases origin <;>
    simp [tagged, setAside, Value.legible, membersLegible, hlegible, untag, htag, hrest, tagName,
      variantNamed, hname]

/-- The members are fields of the record, in the order in which they are declared. -/
def Form.Lists (form : Form) (members : List (String × Value)) : Prop :=
  (members.map (·.1)).Sublist form.fields

theorem Form.Lists.mem {form : Form} (h : form.Lists members) {m : String × Value}
    (hm : m ∈ members) : m.1 ∈ form.fields := h.subset (List.mem_map_of_mem hm)

/-- A tag that is no field of a record is not among its members. -/
theorem Form.Lists.ne_tag {form : Form} (h : form.Lists members) {tag : String}
    (htag : tag ∉ form.fields) : ∀ m ∈ members, m.1 ≠ tag := fun _ hm heq => htag (heq ▸ h.mem hm)

/-- A record takes the members that it lists one after the other. -/
theorem Form.decode_object (form : Form) {start : σ} {take : σ → String → Value → Decoded σ}
    {finish : σ → (String → Failure) → Decoded α} (h : form.Lists members) :
    form.decode origin start take finish (.object members) =
      members.foldlM (fun s m => take s m.1 m.2) start >>= (finish · .missingField) := by
  have hfields : ∀ m ∈ members, m.1 ∈ form.fields := fun m hm => h.mem hm
  rw [Form.decode]
  congr 1
  clear h
  induction members generalizing start with
  | nil => rfl
  | cons m ms ih =>
    obtain ⟨name, v⟩ := m
    have hfield : form.fields.contains name := by simpa using hfields _ List.mem_cons_self
    have hrest : ∀ m ∈ ms, m.1 ∈ form.fields := fun m hm =>
      hfields m (List.mem_cons_of_mem _ hm)
    simp only [List.foldlM_cons, hfield, if_true, ih hrest]

/-- The value of a member that is no field of an open record does not matter, nor does the member. -/
theorem Form.decode_skip (form : Form) {start : σ} {take : σ → String → Value → Decoded σ}
    {finish : σ → (String → Failure) → Decoded α} (hclosed : form.closed = false) {name : String}
    (hname : name ∉ form.fields) (ms ns : List (String × Value)) (v : Value) :
    form.decode origin start take finish (.object (ms ++ (name, v) :: ns)) =
      form.decode origin start take finish (.object (ms ++ ns)) := by
  have hcontains : form.fields.contains name = false := by simpa using hname
  simp only [Form.decode, List.foldlM_append, List.foldlM_cons, hcontains, hclosed,
    Bool.false_eq_true, if_false, ok_bind]

/-- Nor does a member beside a tag and its content. -/
theorem adjacent_skip (title : String) {tag content other : String} (variants : List String)
    (decoder : String → Origin → Value → Decoded α) (htag : other ≠ tag)
    (hcontent : other ≠ content) (ms ns : List (String × Value)) (v : Value) :
    adjacent title tag content variants decoder (.object (ms ++ (other, v) :: ns)) =
      adjacent title tag content variants decoder (.object (ms ++ ns)) := by
  have hskip (p : String × Value → Bool) (hp : p (other, v) = false) :
      (ms ++ (other, v) :: ns).filter p = (ms ++ ns).filter p := by
    simp [List.filter_append, hp]
  rw [adjacent, adjacent, hskip _ (by simp [htag, hcontent])]

/-- Content that follows its tag is decoded as the tag says. -/
theorem adjacent_object (title : String) {tag content name : String} {variants : List String}
    (decoder : String → Origin → Value → Decoded α) (hcontent : content ≠ tag)
    (hname : name ∈ variants) (v : Value) :
    adjacent title tag content variants decoder (.object [(tag, .string name), (content, v)]) =
      decoder name .inPlace v := by
  cases h : decoder name .inPlace v with
  | error failure =>
    simp [adjacent, adjacent.unrepeated, choice, variantNamed, hcontent, hname, h]
    rfl
  | ok a => simp [adjacent, adjacent.unrepeated, choice, variantNamed, hcontent, hname, h]

end

/-! ## Values that are cut short -/

/-- The decoder fails on the value. -/
def Refuses (decoder : Value → Decoded α) (v : Value) : Prop := ∃ failure, decoder v = .error failure

/-- The decoder fails on whatever is left of the value where there is no room for all of it. -/
def RefusesCut (decoder : Value → Decoded α) (v : Value) : Prop :=
  ∀ room, ¬(v.pruned room).legible → Refuses decoder (v.pruned room)

/-- The decoder fails on whatever was not taken in as a whole. -/
def Strict (decoder : Value → Decoded α) : Prop := ∀ v : Value, ¬v.legible → Refuses decoder v

section

variable {decoder : Value → Decoded α} {item : Value → Decoded β} {v : Value}

theorem Strict.refusesCut (h : Strict decoder) (v : Value) : RefusesCut decoder v :=
  fun _ => h _

/-- What is accepted was taken in. -/
theorem legible_of_eq_ok {a : α} (h : ¬v.legible → Refuses decoder v) (ha : decoder v = .ok a) :
    v.legible :=
  Decidable.by_contra fun hillegible => by
    obtain ⟨failure, hfailure⟩ := h hillegible
    cases ha.symm.trans hfailure

theorem strict_string : Strict string
  | .string _, hv => absurd rfl hv
  | .null, _ | .bool _, _ | .integer _, _ | .float _, _ | .array _, _ | .object _, _
  | .unread, _ => ⟨_, rfl⟩

theorem Strict.optional (h : Strict decoder) : Strict (optional decoder) := by
  intro v hv
  obtain ⟨failure, hfailure⟩ := h v hv
  cases v with
  | null => exact absurd rfl hv
  | _ =>
    refine ⟨failure, ?_⟩
    rw [Json.optional, hfailure]
    · rfl
    · exact nofun

theorem Refuses.map (h : Refuses decoder v) (f : α → β) : Refuses (fun v => (decoder v).map f) v := by
  obtain ⟨failure, hfailure⟩ := h
  refine ⟨failure, ?_⟩
  simp only [hfailure]
  rfl

theorem RefusesCut.bind (h : RefusesCut decoder v) (f : α → Decoded β) :
    RefusesCut (fun v => decoder v >>= f) v := by
  intro room hv
  obtain ⟨failure, hfailure⟩ := h room hv
  refine ⟨failure, ?_⟩
  simp only [hfailure]
  rfl

/-- What refuses its value refuses to take it as a field. -/
theorem Refuses.field (h : Refuses decoder v) (name : String) (seen : Option α)
    (f : Option α → Decoded β) : Refuses (fun v => once name seen (decoder v) >>= f) v := by
  obtain ⟨failure, hfailure⟩ := h
  simp only [Refuses, once, hfailure]
  split
  · exact ⟨_, rfl⟩
  · exact ⟨_, rfl⟩

theorem RefusesCut.field (h : RefusesCut decoder v) (name : String) (seen : Option α)
    (f : Option α → Decoded β) : RefusesCut (fun v => once name seen (decoder v) >>= f) v :=
  fun room hv => (h room hv).field name seen f

theorem Strict.field (h : Strict decoder) (name : String) (seen : Option α)
    (f : Option α → Decoded β) : Strict fun v => once name seen (decoder v) >>= f :=
  fun v hv => (h v hv).field name seen f

theorem Strict.ite {p : Prop} [Decidable p] {other : Value → Decoded α} (h : Strict decoder)
    (hother : Strict other) : Strict fun v => if p then decoder v else other v := by
  split
  · exact h
  · exact hother

theorem refuses_list {items : List Value} (h : ∀ v ∈ items, ¬v.legible → Refuses item v)
    (hitems : ¬itemsLegible items) : Refuses (list item) (.array items) := by
  induction items with
  | nil => exact absurd rfl hitems
  | cons v vs ih =>
    simp only [Refuses, list, List.mapM_cons]
    cases hv : item v with
    | error failure => exact ⟨failure, rfl⟩
    | ok b =>
      have hlegible : v.legible := legible_of_eq_ok (h v List.mem_cons_self) hv
      rw [itemsLegible, hlegible, Bool.true_and] at hitems
      obtain ⟨failure, hfailure⟩ := ih (fun w hw => h w (List.mem_cons_of_mem _ hw)) hitems
      rw [list] at hfailure
      refine ⟨failure, ?_⟩
      rw [ok_bind, hfailure]
      rfl

theorem Strict.list (h : Strict item) : Strict (list item)
  | .array _, hv => refuses_list (fun v _ => h v) hv
  | .null, _ | .bool _, _ | .integer _, _ | .float _, _ | .string _, _ | .object _, _
  | .unread, _ => ⟨_, rfl⟩

theorem RefusesCut.list {f : γ → Value} {as : List γ} (h : ∀ a ∈ as, RefusesCut item (f a)) :
    RefusesCut (list item) (.array (as.map f)) := by
  intro room hv
  rw [Value.pruned] at hv ⊢
  split at hv
  · next hroom =>
    rw [if_pos hroom]
    refine refuses_list (fun w hw => ?_) hv
    rw [itemsPruned_eq_map, List.map_map] at hw
    obtain ⟨a, ha, rfl⟩ := List.mem_map.1 hw
    exact h a ha (room - 1)
  · next hroom =>
    rw [if_neg hroom]
    exact ⟨_, rfl⟩

/-- An object is refused as soon as it is refused with the members that are left of it. -/
theorem refusesCut_object {members : List (String × Value)} (hunread : Refuses decoder .unread)
    (h : ∀ room, ¬membersLegible (membersPruned room members) →
      Refuses decoder (.object (membersPruned room members))) :
    RefusesCut decoder (.object members) := by
  intro room hv
  rw [Value.pruned] at hv ⊢
  split at hv
  · next hroom =>
    rw [if_pos hroom]
    exact h (room - 1) hv
  · next hroom =>
    rw [if_neg hroom]
    exact hunread

/-- A record that refuses one of its members is refused. -/
theorem foldlM_refuses {take : σ → String → Value → Decoded σ} {ms : List (String × Value)}
    (h : ∀ m ∈ ms, ¬m.2.legible → ∀ s, Refuses (take s m.1) m.2) (hms : ¬membersLegible ms)
    (s : σ) : ∃ failure, ms.foldlM (fun s m => take s m.1 m.2) s = .error failure := by
  induction ms generalizing s with
  | nil => exact absurd rfl hms
  | cons m ms ih =>
    rw [List.foldlM_cons]
    cases hm : take s m.1 m.2 with
    | error failure => exact ⟨failure, rfl⟩
    | ok s' =>
      have hlegible : m.2.legible :=
        legible_of_eq_ok (fun hillegible => h m List.mem_cons_self hillegible s) hm
      rw [membersLegible, hlegible, Bool.true_and] at hms
      exact ih (fun w hw => h w (List.mem_cons_of_mem _ hw)) hms s'

/-- A record is refused if one of its fields was cut short. -/
theorem Form.refusesCut (form : Form) {origin : Origin} {start : σ}
    {take : σ → String → Value → Decoded σ} {finish : σ → (String → Failure) → Decoded α}
    {members : List (String × Value)} (hlists : form.Lists members)
    (h : ∀ m ∈ members, ∀ s, RefusesCut (take s m.1) m.2) :
    RefusesCut (form.decode origin start take finish) (.object members) := by
  refine refusesCut_object ⟨_, rfl⟩ fun room hv => ?_
  have hpruned : form.Lists (membersPruned room members) := by
    simpa [Form.Lists, membersPruned_eq_map, Function.comp_def] using hlists
  have htake : ∀ m ∈ membersPruned room members, ¬m.2.legible → ∀ s, Refuses (take s m.1) m.2 := by
    intro m hm hillegible s
    rw [membersPruned_eq_map] at hm
    obtain ⟨m', hm', rfl⟩ := List.mem_map.1 hm
    exact h m' hm' s room hillegible
  obtain ⟨failure, hfailure⟩ := foldlM_refuses htake hv start
  rw [Refuses, Form.decode_object form hpruned, hfailure]
  exact ⟨failure, rfl⟩

end

/-! ## Decoding texts -/

section

variable {decoder : Value → Decoded α} {v : Value} {text : String}

theorem decode_of_read (hread : read text = some (v.pruned maxNesting)) (hv : v.NumberFree)
    (hcut : RefusesCut decoder v) :
    decode decoder text = if v.depth ≤ maxNesting then decoder v else .error .malformed := by
  have hlegible : (v.pruned maxNesting).legible ↔ v.depth ≤ maxNesting := v.legible_pruned hv
  rw [decode, hread]
  by_cases hdepth : v.depth ≤ maxNesting
  · rw [v.pruned_of_depth_le hdepth] at hlegible ⊢
    simp only [hlegible.2 hdepth, hdepth, if_true]
    cases decoder v <;> rfl
  · obtain ⟨failure, hfailure⟩ := hcut maxNesting (hdepth ∘ hlegible.1)
    simp [hdepth, hfailure, hlegible, Except.mapError]

/-- What a text without numbers decodes to is decided by its value. -/
theorem decode_compact (hv : v.NumberFree) (hcut : RefusesCut decoder v) :
    decode decoder v.compact =
      if v.depth ≤ maxNesting then decoder v else .error .malformed :=
  decode_of_read (read_compact hv) hv hcut

theorem decode_pretty (hv : v.NumberFree) (hcut : RefusesCut decoder v) :
    decode decoder (v.pretty 0) =
      if v.depth ≤ maxNesting then decoder v else .error .malformed :=
  decode_of_read (read_pretty hv) hv hcut

end

end ClassUnit.Json
