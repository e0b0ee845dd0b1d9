import ClassUnit.TypePath

/-! # Reading and printing type paths

The grammar of the texts of type paths, as lists of items (`TypePath.Item`), and the proof that a
text is read if and only if it is one, with a step for each item (`TypePath.parse_grammar`). A
number may have any number of zeros in front; printing leaves out those that it does not need. -/

namespace ClassUnit.TypePath

/-! ## Numerals -/

/-- A numeral without the zeros that another digit follows. -/
def trimZeros : List Char → List Char
  | '0' :: c :: cs => trimZeros (c :: cs)
  | cs => cs

/-- A decimal numeral of at most 255. -/
structure Numeral where
  digits : List Char
  digits_ne : digits ≠ []
  isDigit : ∀ c ∈ digits, c.isDigit
  value_le : Nat.ofDigitChars 10 digits 0 ≤ 255

def Numeral.value (n : Numeral) : UInt8 := (Nat.ofDigitChars 10 n.digits 0).toUInt8

theorem Numeral.toNat_value (n : Numeral) : n.value.toNat = Nat.ofDigitChars 10 n.digits 0 := by
  have := n.value_le
  simp [Numeral.value]
  omega

/-- The numeral without superfluous zeros. -/
def Numeral.ofByte (b : UInt8) : Numeral where
  digits := Nat.toDigits 10 b.toNat
  digits_ne := Nat.toDigits_ne_nil
  isDigit _ hc := Nat.isDigit_of_mem_toDigits (by decide) (by decide) hc
  value_le := by
    have := b.toNat_lt
    simp
    omega

theorem Numeral.value_ofByte (b : UInt8) : (ofByte b).value = b := by
  simp [value, ofByte]

theorem exists_digitChar {c : Char} (h : c.isDigit) : ∃ d < 10, c = Nat.digitChar d := by
  obtain ⟨hle, hge⟩ := Char.isDigit_iff_toNat.1 h
  have hzero : '0'.toNat = 48 := rfl
  have hnine : '9'.toNat = 57 := rfl
  have hd : c.toNat - 48 < 10 := by omega
  refine ⟨c.toNat - 48, hd, Char.toNat_inj.1 ?_⟩
  rw [Nat.toNat_digitChar_of_lt_ten hd]
  omega

/-- Digits behind a positive number are printed as they stand. -/
theorem toDigits_ofDigitChars_of_pos {digits : List Char} {n : Nat} (hn : 0 < n)
    (h : ∀ c ∈ digits, c.isDigit) :
    Nat.toDigits 10 (Nat.ofDigitChars 10 digits n) = Nat.toDigits 10 n ++ digits := by
  induction digits generalizing n with
  | nil => simp
  | cons c cs ih =>
    obtain ⟨d, hd, rfl⟩ := exists_digitChar (h c List.mem_cons_self)
    have htail := ih (n := 10 * n + d) (by omega) fun e he => h e (List.mem_cons_of_mem _ he)
    rw [Nat.ofDigitChars_cons_digitChar_of_lt_ten hd, htail,
      ← Nat.toDigits_append_toDigits (by decide) hn hd, Nat.toDigits_of_lt_base hd,
      List.append_assoc, List.singleton_append]

/-- The number that a numeral stands for is printed without the superfluous zeros. -/
theorem toDigits_ofDigitChars {digits : List Char} (hne : digits ≠ [])
    (h : ∀ c ∈ digits, c.isDigit) :
    Nat.toDigits 10 (Nat.ofDigitChars 10 digits 0) = trimZeros digits := by
  fun_induction trimZeros digits with
  | case1 c cs ih =>
    have hzero : Nat.ofDigitChars 10 ('0' :: c :: cs) 0 = Nat.ofDigitChars 10 (c :: cs) 0 := rfl
    rw [hzero, ih (List.cons_ne_nil c cs) fun e he => h e (List.mem_cons_of_mem _ he)]
  | case2 cs hcs =>
    cases cs with
    | nil => exact absurd rfl hne
    | cons c cs =>
      obtain ⟨d, hd, rfl⟩ := exists_digitChar (h c List.mem_cons_self)
      rw [Nat.ofDigitChars_cons_digitChar_of_lt_ten hd]
      rcases Nat.eq_zero_or_pos d with rfl | hpos
      · cases cs with
        | nil => rfl
        | cons e cs => exact absurd rfl (hcs e cs)
      · rw [Nat.mul_zero, Nat.zero_add,
          toDigits_ofDigitChars_of_pos hpos fun e he => h e (List.mem_cons_of_mem _ he),
          Nat.toDigits_of_lt_base hd, List.singleton_append]

/-! ## Items -/

/-- What stands for one step in the text of a path. -/
inductive Item
  | arrayElement
  | innerType
  | wildcardBound
  | typeArgument (index : Numeral)

namespace Item

def chars : Item → List Char
  | .arrayElement => ['[']
  | .innerType => ['.']
  | .wildcardBound => ['*']
  | .typeArgument index => index.digits ++ [';']

/-- The characters of an item without superfluous zeros. -/
def trimmed : Item → List Char
  | .typeArgument index => trimZeros index.digits ++ [';']
  | item => item.chars

def step : Item → Step
  | .arrayElement => .arrayElement
  | .innerType => .innerType
  | .wildcardBound => .wildcardBound
  | .typeArgument index => .typeArgument index.value

/-- The item that a step is printed as. -/
def ofStep : Step → Item
  | .arrayElement => .arrayElement
  | .innerType => .innerType
  | .wildcardBound => .wildcardBound
  | .typeArgument index => .typeArgument (.ofByte index)

theorem step_ofStep (s : Step) : (ofStep s).step = s := by
  cases s <;> simp [ofStep, step, Numeral.value_ofByte]

theorem chars_ofStep (s : Step) : (ofStep s).chars = s.text.toList := by
  cases s <;> simp [ofStep, chars, Step.text, Numeral.ofByte]

theorem toList_text_step (i : Item) : i.step.text.toList = i.trimmed := by
  cases i with
  | typeArgument index =>
    simp [step, trimmed, Step.text, index.toNat_value,
      toDigits_ofDigitChars index.digits_ne index.isDigit]
  | _ => simp [step, trimmed, chars, Step.text]

end Item

/-- The text of a sequence of items. -/
def spell (items : List Item) : String := String.ofList (items.flatMap Item.chars)

/-! ## Reading items -/

variable {steps : List Step} {cs : List Char} {s : String}

/-- What a reader keeps of the digits of an index under way. -/
def pending (digits : List Char) : Option Nat :=
  if digits.isEmpty then none else some (Nat.ofDigitChars 10 digits 0)

theorem pending_getD (digits : List Char) :
    (pending digits).getD 0 = Nat.ofDigitChars 10 digits 0 := by
  cases digits <;> rfl

/-- A digit joins those under way. -/
theorem readSteps_digit {c : Char} (h : c.isDigit) (digits rest : List Char) :
    readSteps (pending digits) (c :: rest) = readSteps (pending (digits ++ [c])) rest := by
  have hpending : pending (digits ++ [c]) =
      some (10 * (pending digits).getD 0 + (c.toNat - '0'.toNat)) := by
    rw [pending_getD]
    simp [pending, Nat.ofDigitChars_append, Nat.ofDigitChars_cons]
  simp [readSteps, h, hpending]

theorem readSteps_digits {more : List Char} (h : ∀ c ∈ more, c.isDigit)
    (digits rest : List Char) :
    readSteps (pending digits) (more ++ rest) = readSteps (pending (digits ++ more)) rest := by
  induction more generalizing digits with
  | nil => simp
  | cons c more ih =>
    rw [List.cons_append, readSteps_digit (h c List.mem_cons_self),
      ih fun d hd => h d (List.mem_cons_of_mem _ hd), List.append_assoc, List.singleton_append]

theorem readSteps_item (i : Item) (rest : List Char) :
    readSteps none (i.chars ++ rest) = (readSteps none rest).map (i.step :: ·) := by
  cases i with
  | typeArgument index =>
    have hread := readSteps_digits index.isDigit [] (';' :: rest)
    have hlt : Nat.ofDigitChars 10 index.digits 0 < 256 := Nat.lt_succ_of_le index.value_le
    have hpending : pending index.digits = some (Nat.ofDigitChars 10 index.digits 0) := by
      simp [pending, index.digits_ne]
    rw [List.nil_append, hpending] at hread
    rw [Item.chars, List.append_assoc, List.singleton_append]
    refine hread.trans ?_
    simp [readSteps, hlt, Item.step, Numeral.value]
  | _ => simp [Item.chars, Item.step, readSteps]

theorem readSteps_items (items : List Item) :
    readSteps none (items.flatMap Item.chars) = some (items.map Item.step) := by
  induction items with
  | nil => rfl
  | cons i items ih => rw [List.flatMap_cons, readSteps_item, ih, Option.map_some, List.map_cons]

/-- A character that is no digit completes an item, or ends the reading. -/
theorem exists_item {digits : List Char} (hdigits : ∀ c ∈ digits, c.isDigit) {c : Char}
    (hc : ¬c.isDigit) (h : readSteps (pending digits) (c :: rest) = some steps) :
    ∃ (i : Item) (more : List Step), digits ++ [c] = i.chars ∧
      readSteps none rest = some more ∧ steps = i.step :: more := by
  suffices ∃ i : Item, digits ++ [c] = i.chars ∧
      (readSteps none rest).map (i.step :: ·) = some steps by
    obtain ⟨i, hi, hmap⟩ := this
    obtain ⟨more, hmore, rfl⟩ := Option.map_eq_some_iff.1 hmap
    exact ⟨i, more, hi, hmore, rfl⟩
  by_cases hne : digits = []
  · subst hne
    simp only [pending, List.isEmpty_nil, if_true, readSteps, hc, Bool.false_eq_true,
      if_false] at h
    split at h
    · subst c
      exact ⟨.arrayElement, rfl, h⟩
    · split at h
      · subst c
        exact ⟨.innerType, rfl, h⟩
      · split at h
        · subst c
          exact ⟨.wildcardBound, rfl, h⟩
        · cases h
  · have hpending : pending digits = some (Nat.ofDigitChars 10 digits 0) := by
      simp [pending, hne]
    simp only [hpending, readSteps, hc, Bool.false_eq_true, if_false] at h
    split at h
    · obtain ⟨rfl, hlt⟩ := ‹_ ∧ _›
      exact ⟨.typeArgument ⟨digits, hne, hdigits, Nat.le_of_lt_succ hlt⟩, rfl, h⟩
    · cases h

/-- The digits under way and what is still to be read make up the items of the steps that the
reader is going to give. -/
theorem exists_items {digits : List Char} (hdigits : ∀ c ∈ digits, c.isDigit)
    (h : readSteps (pending digits) cs = some steps) :
    ∃ items : List Item, digits ++ cs = items.flatMap Item.chars ∧ steps = items.map Item.step := by
  induction cs generalizing digits steps with
  | nil =>
    cases digits with
    | nil => exact ⟨[], rfl, by simpa [readSteps, pending] using h.symm⟩
    | cons d digits => simp [readSteps, pending] at h
  | cons c cs ih =>
    by_cases hc : c.isDigit
    · rw [readSteps_digit hc] at h
      have hmore : ∀ d ∈ digits ++ [c], d.isDigit :=
        List.forall_mem_append.2 ⟨hdigits, List.forall_mem_singleton.2 hc⟩
      obtain ⟨items, hitems, hsteps⟩ := ih hmore h
      exact ⟨items, by simpa using hitems, hsteps⟩
    · obtain ⟨i, more, hi, hrest, rfl⟩ := exists_item hdigits hc h
      have hnext : readSteps (pending []) cs = some more := hrest
      obtain ⟨items, hitems, rfl⟩ := ih (List.forall_mem_nil _) hnext
      exact ⟨i :: items, by simp [← hi, ← hitems], rfl⟩

theorem readSteps_eq_some_iff :
    readSteps none cs = some steps ↔
      ∃ items : List Item, cs = items.flatMap Item.chars ∧ steps = items.map Item.step := by
  constructor
  · intro h
    have hstart : readSteps (pending []) cs = some steps := h
    simpa using exists_items (List.forall_mem_nil _) hstart
  · rintro ⟨items, rfl, rfl⟩
    exact readSteps_items items

/-- The path of a sequence of items. -/
def ofItems (items : List Item) : TypePath := ⟨items.map Item.step⟩

theorem parse_eq_ok_iff {p : TypePath} :
    parse s = .ok p ↔ ∃ items, s = spell items ∧ p = ofItems items := by
  have hread : parse s = .ok p ↔ readSteps none s.toList = some p.steps := by
    cases p
    cases h : readSteps none s.toList <;> simp [parse, h]
  obtain ⟨steps⟩ := p
  rw [hread, readSteps_eq_some_iff]
  simp [spell, ofItems, ← String.toList_inj]

theorem parse_eq_error_iff {e : Error} :
    parse s = .error e ↔ e = .invalidTypePath s ∧ ¬∃ items, s = spell items := by
  have hread : (∃ items, s = spell items) ↔ ∃ p, parse s = .ok p := by
    constructor
    · rintro ⟨items, hs⟩
      exact ⟨ofItems items, parse_eq_ok_iff.2 ⟨items, hs, rfl⟩⟩
    · rintro ⟨p, hp⟩
      obtain ⟨items, hs, -⟩ := parse_eq_ok_iff.1 hp
      exact ⟨items, hs⟩
  rw [hread]
  cases h : readSteps none s.toList <;> simp [parse, h, eq_comm]

/-! ## Printing -/

theorem text_eq_spell (p : TypePath) : p.text = spell (p.steps.map Item.ofStep) := by
  simp [← String.toList_inj, spell, TypePath.text, List.flatMap_map, Item.chars_ofStep]

theorem ofItems_ofStep (p : TypePath) : ofItems (p.steps.map Item.ofStep) = p := by
  simp [ofItems, Item.step_ofStep, Function.comp_def]

theorem text_ofItems (items : List Item) :
    (ofItems items).text = String.ofList (items.flatMap Item.trimmed) := by
  simp [← String.toList_inj, ofItems, TypePath.text, List.flatMap_map, Item.toList_text_step]

/-- What is printed reads back as the same path. A text is read if and only if it is a sequence of
items, and then gives a step for each of them, which are printed without superfluous zeros. Any
other text is refused as a whole. -/
theorem parse_grammar :
    (∀ p : TypePath, parse p.text = .ok p) ∧
    (∀ s p, parse s = .ok p ↔ ∃ items, s = spell items ∧ p = ofItems items) ∧
    (∀ items, (ofItems items).text = String.ofList (items.flatMap Item.trimmed)) ∧
    ∀ s e, parse s = .error e ↔ e = .invalidTypePath s ∧ ¬∃ items, s = spell items := by
  have hprinted (p : TypePath) : parse p.text = .ok p :=
    parse_eq_ok_iff.2 ⟨p.steps.map Item.ofStep, text_eq_spell p, (ofItems_ofStep p).symm⟩
  exact ⟨hprinted, fun _ _ => parse_eq_ok_iff, text_ofItems, fun _ _ => parse_eq_error_iff⟩

example : parse "[007;*0000;" = .ok ⟨[.arrayElement, .typeArgument 7, .wildcardBound,
    .typeArgument 0]⟩ := rfl

end ClassUnit.TypePath
