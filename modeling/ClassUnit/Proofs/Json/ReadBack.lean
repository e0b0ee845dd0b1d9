import Mathlib.Logic.Basic
import Mathlib.Tactic.SplitIfs
import ClassUnit.Json.Decode

/-! # Reading printed values

A value without numbers is read back from its text, but for the objects and arrays that are nested
deeper than a reader allows (`read_compact`, `read_pretty`). Both printers put the same tokens and
differ in the blanks between them, so the reader is compared with one spelling that takes the
blanks from a `Layout`. -/

namespace ClassUnit.Json
open Reader (State Frame Members Use isBlank isWordChar maxNesting nested)

/-! ## Spelling of values -/

/-- The blanks of a text. -/
structure Layout where
  /-- In front of whatever begins a line of the level. -/
  line (level : Nat) : List Char
  /-- Behind the name of a member. -/
  gap : List Char
  line_blank (level : Nat) : ∀ c ∈ line level, isBlank c
  gap_blank : ∀ c ∈ gap, isBlank c

namespace Layout

/-- No blanks at all. -/
def dense : Layout := ⟨fun _ => [], [], by simp, by simp⟩

/-- Lines that are indented by their level. -/
def indented : Layout where
  line level := '\n' :: List.replicate (2 * level) ' '
  gap := [' ']
  line_blank level c hc := by
    rcases List.mem_cons.1 hc with rfl | hc
    · rfl
    · rw [List.eq_of_mem_replicate hc]
      rfl
  gap_blank c hc := by
    rw [List.mem_singleton.1 hc]
    rfl

end Layout

def quoteChars (s : String) : List Char := '"' :: (s.toList.flatMap escape ++ ['"'])

mutual

def Value.laid (l : Layout) (level : Nat) : Value → List Char
  | .array [] => ['[', ']']
  | .array (v :: vs) =>
    '[' :: (l.line (level + 1) ++ (v.laid l (level + 1) ++ (itemsLaid l (level + 1) vs ++
      (l.line level ++ [']']))))
  | .object [] => ['{', '}']
  | .object ((k, v) :: ms) =>
    '{' :: (l.line (level + 1) ++ (quoteChars k ++ ':' :: (l.gap ++ (v.laid l (level + 1) ++
      (membersLaid l (level + 1) ms ++ (l.line level ++ ['}']))))))
  | v => v.scalar.toList

/-- The items of an array behind the first one. -/
def itemsLaid (l : Layout) (level : Nat) : List Value → List Char
  | [] => []
  | v :: vs => ',' :: (l.line level ++ (v.laid l level ++ itemsLaid l level vs))

/-- The members of an object behind the first one. -/
def membersLaid (l : Layout) (level : Nat) : List (String × Value) → List Char
  | [] => []
  | (k, v) :: ms =>
    ',' :: (l.line level ++ (quoteChars k ++ ':' :: (l.gap ++ (v.laid l level ++
      membersLaid l level ms))))

end

theorem toList_quote (s : String) : (quote s).toList = quoteChars s := by
  simp [quote, quoteChars]

mutual

theorem toList_compact (level : Nat) : ∀ v : Value, v.compact.toList = v.laid .dense level
  | .null | .bool _ | .integer _ | .float _ | .string _ | .unread => rfl
  | .array [] | .object [] => rfl
  | .array (v :: vs) => by
    simp [Value.compact, Value.laid, Layout.dense, toList_compact (level + 1) v,
      toList_compactItems (level + 1) vs]
  | .object ((k, v) :: ms) => by
    simp [Value.compact, Value.laid, Layout.dense, toList_quote, toList_compact (level + 1) v,
      toList_compactMembers (level + 1) ms]

theorem toList_compactItems (level : Nat) :
    ∀ vs : List Value, (compactItems vs).toList = itemsLaid .dense level vs
  | [] => rfl
  | v :: vs => by
    simp [compactItems, itemsLaid, Layout.dense, toList_compact level v,
      toList_compactItems level vs]

theorem toList_compactMembers (level : Nat) :
    ∀ ms : List (String × Value), (compactMembers ms).toList = membersLaid .dense level ms
  | [] => rfl
  | (k, v) :: ms => by
    simp [compactMembers, membersLaid, Layout.dense, toList_quote, toList_compact level v,
      toList_compactMembers level ms]

end

theorem toList_newline (level : Nat) : (newline level).toList = Layout.indented.line level := by
  simp [newline, Layout.indented]

mutual

theorem toList_pretty (level : Nat) : ∀ v : Value, (v.pretty level).toList = v.laid .indented level
  | .null | .bool _ | .integer _ | .float _ | .string _ | .unread => rfl
  | .array [] | .object [] => by simp [Value.pretty, Value.laid]
  | .array (v :: vs) => by
    simp [Value.pretty, Value.laid, toList_newline, toList_pretty (level + 1) v,
      toList_prettyItems (level + 1) vs]
  | .object ((k, v) :: ms) => by
    have hgap : Layout.indented.gap = [' '] := rfl
    simp [Value.pretty, Value.laid, hgap, toList_newline, toList_quote,
      toList_pretty (level + 1) v, toList_prettyMembers (level + 1) ms]

theorem toList_prettyItems (level : Nat) :
    ∀ vs : List Value, (prettyItems level vs).toList = itemsLaid .indented level vs
  | [] => rfl
  | v :: vs => by
    simp [prettyItems, itemsLaid, toList_newline, toList_pretty level v,
      toList_prettyItems level vs]

theorem toList_prettyMembers (level : Nat) :
    ∀ ms : List (String × Value), (prettyMembers level ms).toList = membersLaid .indented level ms
  | [] => rfl
  | (k, v) :: ms => by
    have hgap : Layout.indented.gap = [' '] := rfl
    simp [prettyMembers, membersLaid, hgap, toList_newline, toList_quote, toList_pretty level v,
      toList_prettyMembers level ms]

end

mutual

/-- Neither a number nor anything unread stands in the value. -/
def Value.NumberFree : Value → Prop
  | .integer _ | .float _ | .unread => False
  | .array items => itemsNumberFree items
  | .object members => membersNumberFree members
  | _ => True

def itemsNumberFree : List Value → Prop
  | [] => True
  | v :: vs => v.NumberFree ∧ itemsNumberFree vs

def membersNumberFree : List (String × Value) → Prop
  | [] => True
  | (_, v) :: ms => v.NumberFree ∧ membersNumberFree ms

end

mutual

/-- What a reader takes in of a value where there is room for so many levels of nesting. -/
def Value.pruned (room : Nat) : Value → Value
  | .array items => if 0 < room then .array (itemsPruned (room - 1) items) else .unread
  | .object members => if 0 < room then .object (membersPruned (room - 1) members) else .unread
  | v => v

def itemsPruned (room : Nat) : List Value → List Value
  | [] => []
  | v :: vs => v.pruned room :: itemsPruned room vs

def membersPruned (room : Nat) : List (String × Value) → List (String × Value)
  | [] => []
  | (k, v) :: ms => (k, v.pruned room) :: membersPruned room ms

end

/-! ## Reading step by step -/

namespace Reader

variable {stack stack' : List Frame} {state state' : State} {v : Value} {c : Char}
  {rest blanks : List Char}

theorem run_cons (h : state.step c stack = some (state', stack')) (rest : List Char) :
    run state stack (c :: rest) = run state' stack' rest := by
  rw [run, h]

/-- A state that blanks leave as it is. -/
def Idle (state : State) (stack : List Frame) : Prop :=
  ∀ c, isBlank c → state.step c stack = some (state, stack)

/-- Blanks are skipped where a state is idle. -/
theorem Idle.run (h : Idle state stack) (hblanks : ∀ c ∈ blanks, isBlank c) (rest : List Char) :
    run state stack (blanks ++ rest) = Reader.run state stack rest := by
  induction blanks with
  | nil => rfl
  | cons c blanks ih =>
    rw [List.cons_append, run_cons (h c (hblanks c List.mem_cons_self))]
    exact ih fun d hd => hblanks d (List.mem_cons_of_mem _ hd)

theorem idle_value (stack : List Frame) : Idle .value stack := fun c hc => by
  simp [State.step, hc]

theorem idle_itemOrEnd (stack : List Frame) : Idle .itemOrEnd stack := fun c hc => by
  simp [State.step, hc]

theorem idle_keyOrEnd (stack : List Frame) : Idle .keyOrEnd stack := fun c hc => by
  simp [State.step, hc]

theorem idle_key (members : List (String × Value)) (stack : List Frame) :
    Idle (.key members) stack := fun c hc => by
  simp [State.step, hc]

theorem idle_rest (v : Value) (stack : List Frame) : Idle (.rest v) stack := fun c hc => by
  simp [State.step, afterValue, hc]

/-- A text behind which no word goes on. -/
def Stops (rest : List Char) : Prop := ∀ c cs, rest = c :: cs → isWordChar c = false

theorem stops_nil : Stops [] := fun _ _ h => nomatch h

theorem stops_cons (h : isWordChar c = false) (rest : List Char) : Stops (c :: rest) := by
  rintro _ _ ⟨⟩
  exact h

theorem isWordChar_of_isBlank (h : isBlank c) : isWordChar c = false := by
  simp only [isBlank, Bool.or_eq_true, decide_eq_true_eq] at h
  rcases h with ((rfl | rfl) | rfl) | rfl <;> rfl

theorem Stops.append (h : Stops rest) (hblanks : ∀ c ∈ blanks, isBlank c) :
    Stops (blanks ++ rest) := by
  cases blanks with
  | nil => exact h
  | cons c blanks => exact stops_cons (isWordChar_of_isBlank (hblanks c List.mem_cons_self)) _

/-- A word is complete where the text behind it stops it. -/
theorem run_word (read : List Char) (hv : word? read.reverse = some v) (hrest : Stops rest) :
    run (.word read) stack rest = run (.rest v) stack rest := by
  cases rest with
  | nil => simp [run, State.finish, hv]
  | cons c rest =>
    have hstep : (State.word read).step c stack = (State.rest v).step c stack := by
      simp [State.step, hrest c rest rfl, hv]
    rw [run, run, hstep]

/-! ## Reading strings -/

theorem hexDigit?_digitChar : ∀ d < 16, hexDigit? (Nat.digitChar d) = some d := by decide

/-- A code unit below the surrogates is a character. -/
theorem addUnit_of_lt (read : List Char) {unit : Nat} (h : unit < 0x20) :
    addUnit (some read) unit none = (some (Char.ofNat unit :: read), .none) := by
  have hhigh : isHigh unit = false := by
    simp only [isHigh, Bool.and_eq_false_iff, decide_eq_false_iff_not]
    omega
  have hlow : isLow unit = false := by
    simp only [isLow, Bool.and_eq_false_iff, decide_eq_false_iff_not]
    omega
  simp [addUnit, hhigh, hlow]

theorem step_text (use : Use) (read : Option (List Char)) {escape : Escape}
    (h : c = '"' → closed? read escape = none) :
    (State.text use read escape).step c stack =
      (readChar read c escape).map fun (read, escape) => (.text use read escape, stack) := by
  have hopen : (if c = '"' then closed? read escape else none) = none := by
    split_ifs with hc
    · exact h hc
    · rfl
  rw [State.step, hopen]

/-- A control character is escaped by the two lower digits of its code unit. -/
theorem run_unit (use : Use) (read : List Char) (h : c.toNat < 0x20) (stack : List Frame)
    (rest : List Char) :
    run (.text use (some read) .none) stack ('\\' :: 'u' :: '0' :: '0' ::
        Nat.digitChar (c.toNat / 16) :: Nat.digitChar (c.toNat % 16) :: rest) =
      run (.text use (some (c :: read)) .none) stack rest := by
  have hfirst := hexDigit?_digitChar (c.toNat / 16) (by omega)
  have hsecond := hexDigit?_digitChar (c.toNat % 16) (by omega)
  have hunit : 16 * (c.toNat / 16) + c.toNat % 16 = c.toNat := by omega
  have hdigit : (State.text use (some read) (.digits 2 0 none)).step
      (Nat.digitChar (c.toNat / 16)) stack =
        some (.text use (some read) (.digits 3 (c.toNat / 16) none), stack) := by
    rw [step_text use _ fun _ => rfl]
    simp [readChar, hfirst]
  have hlast : (State.text use (some read) (.digits 3 (c.toNat / 16) none)).step
      (Nat.digitChar (c.toNat % 16)) stack = some (.text use (some (c :: read)) .none, stack) := by
    rw [step_text use _ fun _ => rfl]
    simp [readChar, hsecond, hunit, addUnit_of_lt read h]
  change run (.text use (some read) (.digits 2 0 none)) stack _ = _
  rw [run_cons hdigit, run_cons hlast]

/-- Whatever character is escaped, it is read back. -/
theorem run_escape (use : Use) (read : List Char) (c : Char) (stack : List Frame)
    (rest : List Char) :
    run (.text use (some read) .none) stack (escape c ++ rest) =
      run (.text use (some (c :: read)) .none) stack rest := by
  unfold escape
  split_ifs with hquote hslash _ _ _ _ _ hcontrol
  -- The characters that have a short form.
  iterate 7 · subst c; rfl
  · exact run_unit use read hcontrol stack rest
  · refine run_cons ?_ rest
    rw [step_text use _ fun hc => absurd hc hquote]
    simp [readChar, readChar.plain, hslash, hcontrol]

/-- A string is read to its closing quote, whatever follows. -/
theorem run_text (use : Use) (read cs : List Char) (stack : List Frame) (rest : List Char) :
    run (.text use (some read) .none) stack (cs.flatMap escape ++ '"' :: rest) =
      run (use.take (some (String.ofList (read.reverse ++ cs)))) stack rest := by
  induction cs generalizing read with
  | nil =>
    refine run_cons ?_ rest
    simp [State.step, closed?]
  | cons c cs ih =>
    rw [List.flatMap_cons, List.append_assoc, run_escape, ih]
    simp

/-- A state that takes a string reads it to its end. -/
theorem run_quoteChars (use : Use)
    (h : state.step '"' stack = some (.text use (some []) .none, stack)) (s : String)
    (rest : List Char) :
    run state stack (quoteChars s ++ rest) = run (use.take (some s)) stack rest := by
  rw [quoteChars, List.cons_append, run_cons h, List.append_assoc, List.singleton_append,
    run_text]
  simp

/-! ## Reading values -/

/-- The first item of an array is read like any other value. -/
theorem run_itemOrEnd (l : Layout) (level : Nat) {v : Value} (hv : v.NumberFree)
    (stack : List Frame) (rest : List Char) :
    run .itemOrEnd stack (v.laid l level ++ rest) = run .value stack (v.laid l level ++ rest) := by
  obtain ⟨c, cs, hcs, hblank, hclose⟩ :
      ∃ c cs, v.laid l level = c :: cs ∧ isBlank c = false ∧ c ≠ ']' := by
    cases v with
    | null => exact ⟨'n', _, rfl, rfl, by decide⟩
    | bool b => cases b <;> exact ⟨_, _, rfl, rfl, by decide⟩
    | integer n | float x | unread => exact hv.elim
    | string s => exact ⟨'"', _, toList_quote s, rfl, by decide⟩
    | array items => cases items <;> exact ⟨'[', _, rfl, rfl, by decide⟩
    | object members => cases members <;> exact ⟨'{', _, rfl, rfl, by decide⟩
  have hstep : State.itemOrEnd.step c stack = State.value.step c stack := by
    simp [State.step, hblank, hclose]
  rw [hcs, List.cons_append, run, run, hstep]

theorem stops_itemsLaid (l : Layout) (level : Nat) (vs : List Value) (h : Stops rest) :
    Stops (itemsLaid l level vs ++ rest) := by
  cases vs with
  | nil => exact h
  | cons v vs => exact stops_cons rfl _

theorem stops_membersLaid (l : Layout) (level : Nat) (ms : List (String × Value))
    (h : Stops rest) : Stops (membersLaid l level ms ++ rest) := by
  cases ms with
  | nil => exact h
  | cons m ms => exact stops_cons rfl _

/-- The name of a member goes onto the stack, with the members that were read before it. -/
theorem run_name (l : Layout) (members : Members)
    (h : state.step '"' stack = some (.text (.key members) (some []) .none, stack)) (k : String)
    (rest : List Char) :
    run state stack (quoteChars k ++ ':' :: (l.gap ++ rest)) =
      run .value (.object members k :: stack) rest := by
  have hcolon : (Use.take (.key members) (some k)).step ':' stack =
      some (.value, .object members k :: stack) := rfl
  rw [run_quoteChars (.key members) h, run_cons hcolon, (idle_value _).run l.gap_blank]

/-- The levels of nesting that are left on a stack. -/
def room (stack : List Frame) : Nat := maxNesting - stack.length

theorem room_cons (frame : Frame) (stack : List Frame) : room (frame :: stack) = room stack - 1 := by
  rw [room, room, List.length_cons]
  omega

theorem nested_eq (v : Value) (stack : List Frame) :
    nested v stack = if 0 < room stack then v else .unread := by
  rw [nested, room]
  exact if_congr (by omega) rfl rfl

mutual

/-- Of a value is read what there is room for. -/
theorem run_laid (l : Layout) (level : Nat) (stack : List Frame) {rest : List Char}
    (hrest : Stops rest) : ∀ v : Value, v.NumberFree →
      run .value stack (v.laid l level ++ rest) = run (.rest (v.pruned (room stack))) stack rest
  | .null, _ => run_word ['l', 'l', 'u', 'n'] rfl hrest
  | .bool true, _ => run_word ['e', 'u', 'r', 't'] rfl hrest
  | .bool false, _ => run_word ['e', 's', 'l', 'a', 'f'] rfl hrest
  | .string s, _ => by
    have hlaid : (Value.string s).laid l level = quoteChars s := toList_quote s
    rw [hlaid, run_quoteChars .value rfl]
    rfl
  | .array [], _ => by
    have hopen : State.value.step '[' stack = some (.itemOrEnd, .array [] :: stack) := rfl
    have hclose : State.itemOrEnd.step ']' (.array [] :: stack) =
        some (.rest (nested (.array []) stack), stack) := rfl
    simp only [Value.laid, List.cons_append, List.nil_append]
    rw [run_cons hopen, run_cons hclose, nested_eq, Value.pruned, itemsPruned]
  | .array (v :: vs), h => by
    have hopen : State.value.step '[' stack = some (.itemOrEnd, .array [] :: stack) := rfl
    have hend : Stops (l.line level ++ ']' :: rest) :=
      (stops_cons rfl rest).append (l.line_blank level)
    simp only [Value.laid, List.cons_append, List.append_assoc, List.nil_append]
    rw [run_cons hopen, (idle_itemOrEnd _).run (l.line_blank _), run_itemOrEnd l _ h.1,
      run_laid l (level + 1) (.array [] :: stack) (stops_itemsLaid l _ vs hend) v h.1,
      run_itemsLaid l (level + 1) level stack rest vs _ [] h.2, nested_eq, Value.pruned,
      itemsPruned, room_cons]
    rfl
  | .object [], _ => by
    have hopen : State.value.step '{' stack = some (.keyOrEnd, stack) := rfl
    have hclose : State.keyOrEnd.step '}' stack =
        some (.rest (nested (.object []) stack), stack) := rfl
    simp only [Value.laid, List.cons_append, List.nil_append]
    rw [run_cons hopen, run_cons hclose, nested_eq, Value.pruned, membersPruned]
  | .object ((k, v) :: ms), h => by
    have hopen : State.value.step '{' stack = some (.keyOrEnd, stack) := rfl
    have hend : Stops (l.line level ++ '}' :: rest) :=
      (stops_cons rfl rest).append (l.line_blank level)
    simp only [Value.laid, List.cons_append, List.append_assoc, List.nil_append]
    rw [run_cons hopen, (idle_keyOrEnd _).run (l.line_blank _), run_name l (some []) rfl,
      run_laid l (level + 1) (.object (some []) k :: stack) (stops_membersLaid l _ ms hend) v h.1,
      run_membersLaid l (level + 1) level stack rest ms k _ [] h.2, nested_eq, Value.pruned,
      membersPruned, room_cons]
    rfl

theorem run_itemsLaid (l : Layout) (level above : Nat) (stack : List Frame) (rest : List Char) :
    ∀ (vs : List Value) (v : Value) (items : List Value), itemsNumberFree vs →
      run (.rest v) (.array items :: stack)
          (itemsLaid l level vs ++ (l.line above ++ ']' :: rest)) =
        run (.rest (nested (.array ((v :: items).reverse ++ itemsPruned (room stack - 1) vs))
          stack)) stack rest
  | [], v, items, _ => by
    have hclose : (State.rest v).step ']' (.array items :: stack) =
        some (.rest (nested (.array (v :: items).reverse) stack), stack) := rfl
    rw [itemsLaid, List.nil_append, (idle_rest v _).run (l.line_blank above), run_cons hclose,
      itemsPruned, List.append_nil]
  | w :: vs, v, items, h => by
    have hnext : (State.rest v).step ',' (.array items :: stack) =
        some (.value, .array (v :: items) :: stack) := rfl
    have hend : Stops (l.line above ++ ']' :: rest) :=
      (stops_cons rfl rest).append (l.line_blank above)
    simp only [itemsLaid, List.cons_append, List.append_assoc]
    rw [run_cons hnext, (idle_value _).run (l.line_blank level),
      run_laid l level (.array (v :: items) :: stack) (stops_itemsLaid l level vs hend) w h.1,
      run_itemsLaid l level above stack rest vs _ (v :: items) h.2, room_cons, itemsPruned,
      List.reverse_cons (a := w.pruned _), List.append_assoc, List.singleton_append]

theorem run_membersLaid (l : Layout) (level above : Nat) (stack : List Frame) (rest : List Char) :
    ∀ (ms : List (String × Value)) (k : String) (v : Value) (members : List (String × Value)),
      membersNumberFree ms →
      run (.rest v) (.object (some members) k :: stack)
          (membersLaid l level ms ++ (l.line above ++ '}' :: rest)) =
        run (.rest (nested (.object (((k, v) :: members).reverse ++
          membersPruned (room stack - 1) ms)) stack)) stack rest
  | [], k, v, members, _ => by
    have hclose : (State.rest v).step '}' (.object (some members) k :: stack) =
        some (.rest (nested (.object ((k, v) :: members).reverse) stack), stack) := rfl
    rw [membersLaid, List.nil_append, (idle_rest v _).run (l.line_blank above), run_cons hclose,
      membersPruned, List.append_nil]
  | (k', w) :: ms, k, v, members, h => by
    have hnext : (State.rest v).step ',' (.object (some members) k :: stack) =
        some (.key (some ((k, v) :: members)), stack) := rfl
    have hend : Stops (l.line above ++ '}' :: rest) :=
      (stops_cons rfl rest).append (l.line_blank above)
    simp only [membersLaid, List.cons_append, List.append_assoc]
    rw [run_cons hnext, (idle_key _ _).run (l.line_blank level),
      run_name l (some ((k, v) :: members)) rfl,
      run_laid l level (.object (some ((k, v) :: members)) k' :: stack)
        (stops_membersLaid l level ms hend) w h.1,
      run_membersLaid l level above stack rest ms k' _ ((k, v) :: members) h.2, room_cons,
      membersPruned, List.reverse_cons (a := (k', w.pruned _)), List.append_assoc,
      List.singleton_append]

end

end Reader

theorem membersNumberFree_append {ms ns : List (String × Value)} (hms : membersNumberFree ms)
    (hns : membersNumberFree ns) : membersNumberFree (ms ++ ns) := by
  induction ms with
  | nil => exact hns
  | cons m ms ih => exact ⟨hms.1, ih hms.2⟩

theorem membersDepth_append (ms ns : List (String × Value)) :
    membersDepth (ms ++ ns) = max (membersDepth ms) (membersDepth ns) := by
  induction ms with
  | nil => simp [membersDepth]
  | cons m ms ih => simp [membersDepth, ih, Nat.max_assoc]

theorem itemsNumberFree_map {f : α → Value} (h : ∀ a, (f a).NumberFree) (as : List α) :
    itemsNumberFree (as.map f) := by
  induction as with
  | nil => trivial
  | cons a as ih => exact ⟨h a, ih⟩

/-! ## Reading texts -/

theorem itemsPruned_eq_map (room : Nat) (vs : List Value) :
    itemsPruned room vs = vs.map (·.pruned room) := by
  induction vs with
  | nil => rfl
  | cons v vs ih => rw [itemsPruned, ih, List.map_cons]

theorem membersPruned_eq_map (room : Nat) (ms : List (String × Value)) :
    membersPruned room ms = ms.map fun m => (m.1, m.2.pruned room) := by
  induction ms with
  | nil => rfl
  | cons m ms ih => rw [membersPruned, ih, List.map_cons]

mutual

theorem Value.pruned_of_depth_le {room : Nat} :
    ∀ v : Value, v.depth ≤ room → v.pruned room = v
  | .null, _ | .bool _, _ | .integer _, _ | .float _, _ | .string _, _ | .unread, _ => rfl
  | .array items, h => by
    rw [Value.depth] at h
    rw [Value.pruned, if_pos (by omega), itemsPruned_of_depth_le items (by omega)]
  | .object members, h => by
    rw [Value.depth] at h
    rw [Value.pruned, if_pos (by omega), membersPruned_of_depth_le members (by omega)]

theorem itemsPruned_of_depth_le {room : Nat} :
    ∀ vs : List Value, itemsDepth vs ≤ room → itemsPruned room vs = vs
  | [], _ => rfl
  | v :: vs, h => by
    rw [itemsDepth, Nat.max_le] at h
    rw [itemsPruned, v.pruned_of_depth_le h.1, itemsPruned_of_depth_le vs h.2]

theorem membersPruned_of_depth_le {room : Nat} :
    ∀ ms : List (String × Value), membersDepth ms ≤ room → membersPruned room ms = ms
  | [], _ => rfl
  | (k, v) :: ms, h => by
    rw [membersDepth, Nat.max_le] at h
    rw [membersPruned, v.pruned_of_depth_le h.1, membersPruned_of_depth_le ms h.2]

end

mutual

/-- All of a value is read if there is room for each level of it. -/
theorem Value.legible_pruned {room : Nat} : ∀ v : Value, v.NumberFree →
    ((v.pruned room).legible ↔ v.depth ≤ room)
  | .null, _ | .bool _, _ | .string _, _ => iff_of_true rfl (Nat.zero_le _)
  | .array items, h => by
    rw [Value.pruned, Value.depth]
    split_ifs with hroom
    · exact (legible_itemsPruned items h).trans (by omega)
    · exact iff_of_false Bool.false_ne_true (by omega)
  | .object members, h => by
    rw [Value.pruned, Value.depth]
    split_ifs with hroom
    · exact (legible_membersPruned members h).trans (by omega)
    · exact iff_of_false Bool.false_ne_true (by omega)

theorem legible_itemsPruned {room : Nat} : ∀ vs : List Value, itemsNumberFree vs →
    (itemsLegible (itemsPruned room vs) ↔ itemsDepth vs ≤ room)
  | [], _ => iff_of_true rfl (Nat.zero_le _)
  | v :: vs, h => by
    rw [itemsPruned, itemsLegible, itemsDepth, Bool.and_eq_true, Nat.max_le,
      v.legible_pruned h.1, legible_itemsPruned vs h.2]

theorem legible_membersPruned {room : Nat} : ∀ ms : List (String × Value), membersNumberFree ms →
    (membersLegible (membersPruned room ms) ↔ membersDepth ms ≤ room)
  | [], _ => iff_of_true rfl (Nat.zero_le _)
  | (k, v) :: ms, h => by
    rw [membersPruned, membersLegible, membersDepth, Bool.and_eq_true, Nat.max_le,
      v.legible_pruned h.1, legible_membersPruned ms h.2]

end

theorem Value.NumberFree.legible {v : Value} (h : v.NumberFree) : v.legible := by
  have hiff : (v.pruned v.depth).legible ↔ v.depth ≤ v.depth := v.legible_pruned h
  rw [v.pruned_of_depth_le (Nat.le_refl _)] at hiff
  exact hiff.2 (Nat.le_refl _)

/-- A text in some layout is read, as far as it is not nested too deep. -/
theorem read_laid (l : Layout) {v : Value} (hv : v.NumberFree) :
    read (String.ofList (v.laid l 0)) = some (v.pruned maxNesting) := by
  have hrun := Reader.run_laid l 0 [] Reader.stops_nil v hv
  rw [List.append_nil] at hrun
  rw [read, String.toList_ofList, hrun]
  rfl

theorem read_compact {v : Value} (hv : v.NumberFree) :
    read v.compact = some (v.pruned maxNesting) := by
  rw [← read_laid .dense hv, ← toList_compact, String.ofList_toList]

theorem read_pretty {v : Value} (hv : v.NumberFree) :
    read (v.pretty 0) = some (v.pruned maxNesting) := by
  rw [← read_laid .indented hv, ← toList_pretty, String.ofList_toList]

end ClassUnit.Json
