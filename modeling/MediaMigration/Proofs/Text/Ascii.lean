/-!
# ASCII characters

A fact of all ASCII characters is checked one code point after the other.
-/

namespace MediaMigration

namespace Text

theorem forall_ascii (holds : Char → Prop) (h : ∀ code < 128, holds (Char.ofNat code)) {c : Char}
    (hc : c.toNat < 128) : holds c := by
  have hcode := h c.toNat hc
  rwa [Char.ofNat_toNat] at hcode

theorem isAscii_of_isAlphanum {c : Char} (h : c.isAlphanum = true) : c.toNat < 128 := by
  delta Char.isAlphanum Char.isAlpha Char.isUpper Char.isLower Char.isDigit at h
  simp only [Bool.or_eq_true, Bool.and_eq_true, decide_eq_true_eq] at h
  rcases h with (h | h) | h
  all_goals exact Nat.lt_of_le_of_lt (UInt32.le_iff_toNat_le.mp h.2) (by decide)

end Text

end MediaMigration
