import Mathlib.Data.String.Basic

/-!
# Parts of a text by their bytes

The bytes of a text from one place up to another may spell a text themselves. Then both places lie
between characters, since no byte inside a character can start one, and what is spelled is a part
of the text, character by character.
-/

namespace MediaMigration

namespace Text

variable {text part : String} {start stop : Nat}

theorem size_of_extract (hstop : stop ≤ text.utf8ByteSize)
    (h : text.toUTF8.extract start stop = part.toUTF8) :
    part.utf8ByteSize = stop - start := by
  have hsize := congrArg ByteArray.size h
  rw [ByteArray.size_extract, String.toUTF8_eq_toByteArray, String.toUTF8_eq_toByteArray,
    String.size_toByteArray, String.size_toByteArray, Nat.min_eq_left hstop] at hsize
  exact hsize.symm

/-- Bytes that spell something lie between two ends of characters. -/
theorem isValid_of_extract (hpart : part ≠ "") (hstop : stop ≤ text.utf8ByteSize)
    (h : text.toUTF8.extract start stop = part.toUTF8) :
    (⟨start⟩ : String.Pos.Raw).IsValid text ∧ (⟨stop⟩ : String.Pos.Raw).IsValid text := by
  have hsize := size_of_extract hstop h
  have hpos : part.utf8ByteSize ≠ 0 := by
    rwa [Ne, String.utf8ByteSize_eq_zero_iff]
  have hvalid : (text.toUTF8.extract start stop).IsValidUTF8 := by
    rw [h]
    exact part.isValidUTF8
  have hle : start ≤ stop := by omega
  refine ((String.Pos.Raw.isValidUTF8_extract_iff ⟨start⟩ ⟨stop⟩ hle hstop).mp
    hvalid).resolve_left fun hsame => ?_
  rw [String.Pos.Raw.ext_iff] at hsame
  simp only at hsame
  omega

/-- Bytes of a text spell something exactly where it stands as a part of the text. -/
theorem extract_eq_iff (hpart : part ≠ "") :
    (stop ≤ text.utf8ByteSize ∧ text.toUTF8.extract start stop = part.toUTF8) ↔
      ∃ before after, text = before ++ part ++ after ∧ start = before.utf8ByteSize ∧
        stop = start + part.utf8ByteSize := by
  constructor
  · rintro ⟨hstop, h⟩
    obtain ⟨hfirst, hlast⟩ := isValid_of_extract hpart hstop h
    have hsize := size_of_extract hstop h
    have hpos : part.utf8ByteSize ≠ 0 := by
      rwa [Ne, String.utf8ByteSize_eq_zero_iff]
    have hle : start ≤ stop := by omega
    let before : String := ⟨text.toByteArray.extract 0 start, hfirst.isValidUTF8_extract_zero⟩
    let after : String :=
      ⟨text.toByteArray.extract stop text.utf8ByteSize, hlast.isValidUTF8_extract_utf8ByteSize⟩
    have hbytes : text.toByteArray =
        text.toByteArray.extract 0 start ++ part.toByteArray ++
          text.toByteArray.extract stop text.utf8ByteSize := by
      calc text.toByteArray
          = text.toByteArray.extract 0 text.utf8ByteSize := by
            rw [← String.size_toByteArray, ByteArray.extract_zero_size]
        _ = text.toByteArray.extract 0 stop ++ text.toByteArray.extract stop text.utf8ByteSize :=
            ByteArray.extract_eq_extract_append_extract stop (Nat.zero_le _) hstop
        _ = text.toByteArray.extract 0 start ++ text.toByteArray.extract start stop ++
              text.toByteArray.extract stop text.utf8ByteSize := by
            rw [← ByteArray.extract_eq_extract_append_extract start (Nat.zero_le _) hle]
        _ = text.toByteArray.extract 0 start ++ part.toByteArray ++
              text.toByteArray.extract stop text.utf8ByteSize := by
            rw [String.toUTF8_eq_toByteArray, String.toUTF8_eq_toByteArray] at h
            rw [h]
    refine ⟨before, after, String.toByteArray_inj.mp hbytes, ?_, by omega⟩
    have hbefore : before.toByteArray.size = start := by
      rw [ByteArray.size_extract, String.size_toByteArray]
      omega
    rw [← String.size_toByteArray, hbefore]
  · rintro ⟨before, after, rfl, rfl, rfl⟩
    constructor
    · simp only [String.utf8ByteSize_append]
      omega
    · simp only [String.toUTF8_eq_toByteArray, String.toByteArray_append, ByteArray.append_assoc,
        ← String.size_toByteArray]
      have hshift := ByteArray.extract_append_size_add (a := before.toByteArray)
        (b := part.toByteArray ++ after.toByteArray) (i := 0) (j := part.toByteArray.size)
      rw [Nat.add_zero] at hshift
      rw [hshift, ByteArray.extract_append_eq_left rfl]

end Text

end MediaMigration
