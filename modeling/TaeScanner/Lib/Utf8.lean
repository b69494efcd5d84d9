/-
  TaeScanner.Lib.Utf8

  UTF-8 for lists of bytes.  Which byte arrays are valid is the core library's notion;
  the rule here says which cuts of a valid string are valid: those that fall in
  front of the first byte of a character, and those that leave the string whole.
-/

import TaeScanner.Lib.Bytes

namespace TaeScanner.Lib

/-- The bytes as a byte array. -/
def utf8Array (bs : List Byte) : ByteArray := (bs.map UInt8.ofBitVec).toByteArray

/-- The encoding of a string. -/
def utf8Bytes (s : String) : List Byte := s.toUTF8.data.toList.map (·.toBitVec)

/-- The bytes are the UTF-8 encoding of some characters. -/
def IsUtf8 (bs : List Byte) : Prop := (utf8Array bs).IsValidUTF8

instance (bs : List Byte) : Decidable (IsUtf8 bs) :=
  inferInstanceAs (Decidable (utf8Array bs).IsValidUTF8)

/-- The byte is the first one of a character: 0xxxxxxx, 110xxxxx, 1110xxxx or 11110xxx. -/
def StartsChar (b : Byte) : Prop := (UInt8.ofBitVec b).IsUTF8FirstByte

instance (b : Byte) : Decidable (StartsChar b) :=
  inferInstanceAs (Decidable (UInt8.ofBitVec b).IsUTF8FirstByte)

section Cut
variable {bs : List Byte} {n : Nat}

theorem utf8Array_size : (utf8Array bs).size = bs.length := by
  rw [utf8Array, List.size_toByteArray, List.length_map]

theorem utf8Array_append (bs rest : List Byte) :
    utf8Array (bs ++ rest) = utf8Array bs ++ utf8Array rest := by
  rw [utf8Array, List.map_append, List.toByteArray_append]
  rfl

/-- A cut of the bytes is a cut of the array. -/
theorem utf8Array_take (h : n ≤ bs.length) : (utf8Array bs).extract 0 n = utf8Array (bs.take n) := by
  have hsize : n = (utf8Array (bs.take n)).size := by
    rw [utf8Array_size, List.length_take]
    omega
  have hsplit : utf8Array bs = utf8Array (bs.take n) ++ utf8Array (bs.drop n) := by
    rw [← utf8Array_append, List.take_append_drop]
  rw [hsplit, ByteArray.extract_append_eq_left hsize]

theorem utf8Array_getElem (h : n < (utf8Array bs).size) (hn : n < bs.length) :
    (utf8Array bs)[n] = UInt8.ofBitVec bs[n] :=
  List.getElem_toByteArray.trans (List.getElem_map ..)

/-- A continuation byte starts no character. -/
theorem not_startsChar_of_continuation {b : Byte} (h : b &&& 0xC0 = 0x80) : ¬StartsChar b := by
  revert b
  decide

/-- A cut of a valid string is valid iff it leaves the string whole or falls in front
    of a character. -/
theorem isUtf8_take_iff (h : IsUtf8 bs) :
    IsUtf8 (bs.take n) ↔ bs.length ≤ n ∨ ∃ b, bs[n]? = some b ∧ StartsChar b := by
  rcases Nat.lt_or_ge n bs.length with hlt | hge
  · let s : String := .ofByteArray (utf8Array bs) h
    have hend : s.rawEndPos.byteIdx = bs.length := utf8Array_size
    have hvalid : IsUtf8 (bs.take n) ↔ String.Pos.Raw.IsValid s ⟨n⟩ := by
      rw [String.Pos.Raw.isValid_iff_isValidUTF8_extract_zero]
      show (utf8Array (bs.take n)).IsValidUTF8 ↔ _ ∧ ((utf8Array bs).extract 0 n).IsValidUTF8
      rw [utf8Array_take hlt.le, String.Pos.Raw.le_iff, hend]
      exact (and_iff_right hlt.le).symm
    rw [hvalid, String.Pos.Raw.isValid_iff_isUTF8FirstByte, List.getElem?_eq_getElem hlt]
    have hne : (⟨n⟩ : String.Pos.Raw) ≠ s.rawEndPos := by
      intro heq
      have hidx := congrArg String.Pos.Raw.byteIdx heq
      rw [hend] at hidx
      exact absurd hidx hlt.ne
    have hbyte : ∀ h, s.getUTF8Byte ⟨n⟩ h = UInt8.ofBitVec bs[n] := fun h =>
      utf8Array_getElem (by rw [utf8Array_size]; exact hlt) hlt
    constructor
    · rintro (heq | ⟨hpos, hfirst⟩)
      · exact absurd heq hne
      · rw [hbyte hpos] at hfirst
        exact Or.inr ⟨_, rfl, hfirst⟩
    · rintro (hle | ⟨b, hb, hstarts⟩)
      · omega
      · obtain rfl := Option.some.inj hb
        have hpos : (⟨n⟩ : String.Pos.Raw) < s.rawEndPos := by
          rw [String.Pos.Raw.lt_iff, hend]
          exact hlt
        exact Or.inr ⟨hpos, (hbyte hpos).symm ▸ hstarts⟩
  · rw [List.take_of_length_le hge]
    exact iff_of_true h (Or.inl hge)

end Cut

end TaeScanner.Lib
