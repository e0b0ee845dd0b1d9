import ClassUnit.Proofs.Signature.Reading
import ClassUnit.Proofs.Signature.Scanner

/-! # Offsets into a text

An offset into the bytes of a text lies between two characters if the text goes on there with some
list of characters (`Scanner.At`). At such an offset a scanner sees the character that a reader
sees, whatever the length of its encoding: no byte of another character is taken for an ASCII
character (`Scanner.exists_byteAt`), so that the search for a delimiter ends in front of it
(`Scanner.exists_find`) and a name is cut out whole (`Scanner.name_eq`). -/

namespace ClassUnit.Signature

/-- A fault is told at a position between two characters. The end of a text is told only where it
is, and a character only where it stands. -/
structure Fault.LiesIn (fault : Fault) (text : String) : Prop where
  isValid : String.Pos.Raw.IsValid text ⟨fault.offset⟩
  atEnd : fault.reason = .unexpectedEnd → fault.offset = text.utf8ByteSize
  stands : ∀ c, fault.reason = .unexpectedCharacter c →
    (text.pos ⟨fault.offset⟩ isValid).get? = some c

namespace Scanner

variable {text : String}

/-! ## Encodings -/

/-- A byte of a character stands for the character, if that is in ASCII, and else for no ASCII
character. -/
theorem toNat_of_mem_utf8EncodeChar {c : Char} {b : UInt8} (hb : b ∈ String.utf8EncodeChar c) :
    b.toNat = c.toNat ∨ 128 ≤ b.toNat ∧ 128 ≤ c.toNat := by
  have hc : c.val.toNat = c.toNat := rfl
  simp only [String.utf8EncodeChar, hc] at hb
  split at hb
  · rw [List.mem_singleton] at hb
    subst hb
    left
    rw [UInt8.toNat_ofNat']
    omega
  · right
    -- The leading bits of each byte keep it apart from the ASCII characters.
    split at hb
    · simp only [List.mem_cons, List.not_mem_nil, or_false] at hb
      rcases hb with rfl | rfl <;> rw [UInt8.toNat_ofNat'] <;> omega
    split at hb
    · simp only [List.mem_cons, List.not_mem_nil, or_false] at hb
      rcases hb with rfl | rfl | rfl <;> rw [UInt8.toNat_ofNat'] <;> omega
    · simp only [List.mem_cons, List.not_mem_nil, or_false] at hb
      rcases hb with rfl | rfl | rfl | rfl <;> rw [UInt8.toNat_ofNat'] <;> omega

/-- Two characters that no ASCII character tells apart. -/
def Alike (b c : Char) : Prop := ∀ d : Char, d.toNat < 128 → (b = d ↔ c = d)

theorem Alike.eq_iff (h : Alike b c) (d : Char) (hd : d.toNat < 128 := by decide) :
    b = d ↔ c = d := h d hd

theorem alike_ofUInt8 {c : Char} {b : UInt8} (hb : b ∈ String.utf8EncodeChar c) :
    Alike (.ofUInt8 b) c := by
  intro d hd
  have hbyte : (Char.ofUInt8 b).toNat = b.toNat := rfl
  rw [← Char.toNat_inj, ← Char.toNat_inj, hbyte]
  rcases toNat_of_mem_utf8EncodeChar hb with heq | ⟨hb, hc⟩ <;> omega

theorem utf8Size_eq_one {c : Char} (hc : c.toNat < 128) : c.utf8Size = 1 :=
  utf8Size_ascii (UInt32.le_iff_toNat_le.2 (Nat.lt_succ_iff.1 hc))

/-- Offsets count the bytes of the encoded text. -/
theorem length_bytes (text : String) : (bytes text).length = text.utf8ByteSize := by
  simp [bytes]

theorem bytes_append (s t : String) : bytes (s ++ t) = bytes s ++ bytes t := by
  simp [bytes]

theorem bytes_ofList (cs : List Char) :
    bytes (String.ofList cs) = cs.flatMap String.utf8EncodeChar := by
  simp [bytes, List.utf8Encode]

theorem utf8ByteSize_ofList (cs : List Char) : (String.ofList cs).utf8ByteSize = width cs := by
  induction cs with
  | nil => rfl
  | cons c cs ih =>
    rw [String.ofList_cons, String.utf8ByteSize_append, ih, String.utf8ByteSize_singleton,
      width_cons]

/-! ## Where a text goes on -/

/-- The offset lies between two characters of the text, which goes on with `rest`. -/
def At (text : String) (offset : Nat) (rest : List Char) : Prop :=
  ∃ (p : text.Pos) (before : String),
    p.offset.byteIdx = offset ∧ p.Splits before (String.ofList rest)

namespace At

theorem start (text : String) : At text 0 text.toList := by
  refine ⟨text.startPos, "", rfl, ?_⟩
  rw [String.ofList_toList]
  exact text.splits_startPos

/-- Behind a part of the text the rest stands further on by the width of the part. -/
theorem drop (h : At text offset (cs ++ rest)) : At text (offset + width cs) rest := by
  obtain ⟨p, before, rfl, hp⟩ := h
  have happend : text = (before ++ String.ofList cs) ++ String.ofList rest := by
    rw [hp.eq_append, String.ofList_append, String.append_assoc]
  refine ⟨.ofEqAppend happend, _, ?_, String.Pos.splits_ofEqAppend happend⟩
  rw [(String.Pos.splits_ofEqAppend happend).offset_eq_rawEndPos, hp.offset_eq_rawEndPos]
  simp [utf8ByteSize_ofList]

theorem next (h : At text offset (c :: rest)) : At text (offset + c.utf8Size) rest := by
  rw [← List.singleton_append] at h
  exact h.drop

theorem add_width (h : At text offset rest) : offset + width rest = text.utf8ByteSize := by
  obtain ⟨p, before, rfl, hp⟩ := h
  rw [hp.offset_eq_rawEndPos, hp.eq_append]
  simp [utf8ByteSize_ofList]

/-- The bytes from an offset on are those of the characters that stand there. -/
theorem drop_bytes (h : At text offset rest) :
    (bytes text).drop offset = rest.flatMap String.utf8EncodeChar := by
  obtain ⟨p, before, rfl, hp⟩ := h
  have hlength : p.offset.byteIdx = (bytes before).length := by
    rw [hp.offset_eq_rawEndPos, length_bytes]
    rfl
  rw [hlength, hp.eq_append, bytes_append, List.drop_left, bytes_ofList]

theorem isValid (h : At text offset rest) : String.Pos.Raw.IsValid text ⟨offset⟩ := by
  obtain ⟨p, before, rfl, hp⟩ := h
  exact p.isValid

theorem splits_pos (h : At text offset rest) (hvalid : String.Pos.Raw.IsValid text ⟨offset⟩) :
    ∃ before, (text.pos ⟨offset⟩ hvalid).Splits before (String.ofList rest) := by
  obtain ⟨p, before, rfl, hp⟩ := h
  exact ⟨before, hp⟩

/-- An ASCII character is one byte wide. -/
theorem next_ascii (h : At text offset (c :: rest)) (hc : c.toNat < 128 := by decide) :
    At text (offset + 1) rest := by
  have hnext := h.next
  rwa [utf8Size_eq_one hc] at hnext

theorem lt_length (h : At text offset (c :: rest)) : offset < (bytes text).length := by
  have hsize := h.add_width
  have hpos := c.utf8Size_pos
  rw [width_cons] at hsize
  rw [length_bytes]
  omega

theorem eq_length (h : At text offset []) : offset = (bytes text).length := by
  rw [length_bytes, ← h.add_width, width_nil, Nat.add_zero]

theorem get?_pos (h : At text offset (c :: rest))
    (hvalid : String.Pos.Raw.IsValid text ⟨offset⟩) : (text.pos ⟨offset⟩ hvalid).get? = some c := by
  obtain ⟨before, hp⟩ := h.splits_pos hvalid
  rw [String.ofList_cons] at hp
  rw [String.Pos.get?_eq_some_get hp.ne_endPos_of_singleton]
  exact congrArg some hp.next.get_eq_of_singleton

theorem liesIn (h : At text offset rest)
    (hend : reason = .unexpectedEnd → rest = [] := by simp)
    (hc : ∀ c, reason = .unexpectedCharacter c → rest.head? = some c := by simp) :
    Fault.LiesIn ⟨offset, reason⟩ text where
  isValid := h.isValid
  atEnd hreason := by
    rw [hend hreason] at h
    rw [h.eq_length, length_bytes]
  stands c hreason := by
    obtain ⟨rest, rfl⟩ := List.head?_eq_some_iff.1 (hc c hreason)
    exact h.get?_pos _

end At

/-! ## What a scanner sees -/

theorem byteAt_end (h : At text offset []) : byteAt text offset = refuse offset .unexpectedEnd := by
  have hsize := h.eq_length
  rw [byteAt, dif_neg (by omega)]

/-- At every byte of a character, a scanner sees an ASCII character exactly if it is this one. -/
theorem exists_byteAt (h : At text offset (c :: rest)) (hi : i < c.utf8Size) :
    ∃ b hb, byteAt text (offset + i) = pure ⟨b, hb⟩ ∧ Alike b c := by
  have hsize := h.add_width
  rw [width_cons] at hsize
  have hb : offset + i < (bytes text).length := by
    rw [length_bytes]
    omega
  refine ⟨.ofUInt8 (bytes text)[offset + i], hb, dif_pos hb, ?_⟩
  apply alike_ofUInt8
  have hi' : i < (String.utf8EncodeChar c).length := by
    rw [String.length_utf8EncodeChar]
    exact hi
  have hbyte : (String.utf8EncodeChar c)[i]? = some (bytes text)[offset + i] := by
    rw [← List.getElem?_append_left hi', ← List.flatMap_cons, ← h.drop_bytes, List.getElem?_drop,
      List.getElem?_eq_getElem hb]
  exact List.mem_of_getElem? hbyte

/-- The character at an offset is the first of those that stand there. -/
theorem charAt_eq (h : At text offset (c :: rest)) : charAt text offset = c := by
  rw [charAt, dif_pos h.isValid, h.get?_pos, Option.getD_some]

/-- No byte of a text without `d` is taken for `d`. -/
theorem findIdx?_bytes (hd : d.toNat < 128) {cs : List Char} (hcs : ∀ c ∈ cs, c ≠ d) :
    (cs.flatMap String.utf8EncodeChar).findIdx? (Char.ofUInt8 · == d) = none := by
  rw [List.findIdx?_eq_none_iff]
  intro b hb
  obtain ⟨c, hc, hb⟩ := List.mem_flatMap.1 hb
  rw [beq_eq_false_iff_ne, ne_eq, alike_ofUInt8 hb d hd]
  exact hcs c hc

theorem find_end (h : At text offset cs) (hd : d.toNat < 128) (hcs : ∀ c ∈ cs, c ≠ d) :
    find text offset d = refuse offset (.missing d) := by
  have hsize := h.add_width
  have hnone := findIdx?_bytes hd hcs
  rw [← h.drop_bytes] at hnone
  rw [find, if_neg (by rw [length_bytes]; omega)]
  split
  · simp_all
  · rfl

/-- A character is found behind what does not hold it. -/
theorem exists_find (h : At text offset (cs ++ d :: rest)) (hd : d.toNat < 128)
    (hcs : ∀ c ∈ cs, c ≠ d) :
    ∃ hstop, find text offset d = pure ⟨offset + width cs, hstop⟩ := by
  have hsize := h.add_width
  have hpos := d.utf8Size_pos
  rw [width_append, width_cons] at hsize
  have hstop : offset ≤ offset + width cs ∧ offset + width cs < (bytes text).length := by
    rw [length_bytes]
    omega
  have hlength : (cs.flatMap String.utf8EncodeChar).length = width cs := by
    rw [← bytes_ofList, length_bytes, utf8ByteSize_ofList]
  obtain ⟨b, bs, hb⟩ := List.exists_cons_of_ne_nil (String.utf8EncodeChar_ne_nil (c := d))
  have hfirst : Char.ofUInt8 b = d := (alike_ofUInt8 (c := d) (by simp [hb]) d hd).2 rfl
  have hsome : ((bytes text).drop offset).findIdx? (Char.ofUInt8 · == d) = some (width cs) := by
    rw [h.drop_bytes, List.flatMap_append, List.findIdx?_append, findIdx?_bytes hd hcs, hlength]
    simp [hb, hfirst, List.findIdx?_cons]
  rw [find, if_neg (by rw [length_bytes]; omega)]
  split
  · next i hi =>
    obtain rfl : i = width cs := by simpa [hi] using hsome
    exact ⟨hstop, rfl⟩
  · simp_all

theorem name_empty (h : stop ≤ start) : name text start stop = refuse start .emptyName :=
  if_pos h

/-- The name between two offsets is what stands between them. -/
theorem name_eq (h : At text offset (cs ++ rest)) (hcs : cs ≠ []) :
    name text offset (offset + width cs) = pure (String.ofList cs) := by
  have hpos : 0 < width cs := by
    rw [← utf8ByteSize_ofList, Nat.pos_iff_ne_zero, ne_eq, String.utf8ByteSize_eq_zero_iff]
    simpa using hcs
  have hstart := h.isValid
  have hstop := h.drop.isValid
  obtain ⟨before, hp⟩ := h.splits_pos hstart
  obtain ⟨before', hp'⟩ := h.drop.splits_pos hstop
  rw [name, if_neg (by omega), dif_pos ⟨hstart, hstop⟩]
  congr 1
  rw [String.ofList_append] at hp
  have happend : before' = before ++ String.ofList cs := by
    have hboth := hp'.eq_append.symm.trans hp.eq_append
    rw [← String.append_assoc] at hboth
    exact (String.append_left_inj _).1 hboth
  rw [happend] at hp'
  obtain ⟨hle, hslice⟩ := String.copy_slice_eq_iff_splits.2 ⟨before, _, hp, hp'⟩
  rw [String.extract_eq_copy_slice _ _ hle, hslice]

/-- A name is not cut out of the inside of a character. -/
example :
    (name "Té;" 1 3).exec [] = (.ok "é", []) ∧ (name "Té;" 2 3).exec [] = (.error .stray, []) :=
  ⟨rfl, rfl⟩

end Scanner

end ClassUnit.Signature
