import Mathlib.Data.List.Basic

/-!
# The order of texts is the order of their bytes

Texts are compared character by character. UTF-8 keeps that order: the first byte of a
character says how many bytes follow, more of them for greater characters, and within one length
the bits of the character come from the highest to the lowest.
-/

namespace MediaMigration

namespace Text

def bytesOf (text : String) : List UInt8 :=
  text.toUTF8.data.toList

theorem bytesOf_eq (text : String) :
    bytesOf text = text.toList.flatMap String.utf8EncodeChar := by
  have hencode := @String.utf8Encode_toList text
  rw [bytesOf, String.toUTF8_eq_toByteArray, ← hencode, List.utf8Encode, List.data_toByteArray]

theorem cons_ofNat_lt {first second : Nat} {rest others : List UInt8} (hbyte : second < 256)
    (hle : first ≤ second) (hrest : first = second → rest < others) :
    UInt8.ofNat first :: rest < UInt8.ofNat second :: others := by
  rw [List.cons_lt_cons_iff]
  rcases Nat.lt_or_eq_of_le hle with hless | rfl
  · left
    rw [UInt8.lt_iff_toNat_lt, UInt8.toNat_ofNat_of_lt' hbyte,
      UInt8.toNat_ofNat_of_lt' (Nat.lt_of_le_of_lt hle hbyte)]
    exact hless
  · exact .inr ⟨rfl, hrest rfl⟩

theorem cons_ofNat_lt_of_lt {first second : Nat} (hbyte : second < 256) (h : first < second)
    (rest others : List UInt8) : UInt8.ofNat first :: rest < UInt8.ofNat second :: others :=
  cons_ofNat_lt hbyte (Nat.le_of_lt h) fun heq => absurd heq (Nat.ne_of_lt h)

theorem encode_lt {a b : Char} (h : a.val.toNat < b.val.toNat) (rest others : List UInt8) :
    String.utf8EncodeChar a ++ rest < String.utf8EncodeChar b ++ others := by
  have hlast : b.val.toNat < 0x110000 := by
    rcases b.valid with hlow | hhigh
    · omega
    · omega
  unfold String.utf8EncodeChar
  dsimp only
  generalize a.val.toNat = m at h ⊢
  generalize b.val.toNat = n at h hlast ⊢
  -- by the number of bytes of the two: where the numbers differ, the first byte decides
  rcases Nat.lt_or_ge 0x7f m with hm | hm
  · rw [if_neg (Nat.not_le.mpr hm), if_neg (Nat.not_le.mpr (Nat.lt_trans hm h))]
    rcases Nat.lt_or_ge 0x7ff m with hm | hm
    · rw [if_neg (Nat.not_le.mpr hm), if_neg (Nat.not_le.mpr (Nat.lt_trans hm h))]
      rcases Nat.lt_or_ge 0xffff m with hm | hm
      · rw [if_neg (Nat.not_le.mpr hm), if_neg (Nat.not_le.mpr (Nat.lt_trans hm h))]
        refine cons_ofNat_lt (by omega) (by omega) fun hfirst => ?_
        refine cons_ofNat_lt (by omega) (by omega) fun hsecond => ?_
        refine cons_ofNat_lt (by omega) (by omega) fun hthird => ?_
        exact cons_ofNat_lt_of_lt (by omega) (by omega) _ _
      · rw [if_pos hm]
        split
        · refine cons_ofNat_lt (by omega) (by omega) fun hfirst => ?_
          refine cons_ofNat_lt (by omega) (by omega) fun hsecond => ?_
          exact cons_ofNat_lt_of_lt (by omega) (by omega) _ _
        · exact cons_ofNat_lt_of_lt (by omega) (by omega) _ _
    · rw [if_pos hm]
      split
      · refine cons_ofNat_lt (by omega) (by omega) fun hfirst => ?_
        exact cons_ofNat_lt_of_lt (by omega) (by omega) _ _
      · split
        · exact cons_ofNat_lt_of_lt (by omega) (by omega) _ _
        · exact cons_ofNat_lt_of_lt (by omega) (by omega) _ _
  · rw [if_pos hm]
    split
    · exact cons_ofNat_lt_of_lt (by omega) (by omega) _ _
    · split
      · exact cons_ofNat_lt_of_lt (by omega) (by omega) _ _
      · split
        · exact cons_ofNat_lt_of_lt (by omega) (by omega) _ _
        · exact cons_ofNat_lt_of_lt (by omega) (by omega) _ _

/-- The order of texts is that of their bytes. -/
theorem bytesOf_lt {first second : String} (h : first < second) :
    bytesOf first < bytesOf second := by
  have hchars : ∀ {front back : List Char}, List.Lex (· < ·) front back →
      front.flatMap String.utf8EncodeChar < back.flatMap String.utf8EncodeChar := by
    intro front back hless
    induction hless with
    | @nil c rest =>
        rw [List.flatMap_nil, List.flatMap_cons]
        obtain ⟨byte, bytes, hbytes⟩ :=
          List.exists_cons_of_ne_nil (String.utf8EncodeChar_ne_nil (c := c))
        rw [hbytes]
        exact List.nil_lt_cons byte _
    | cons _ ih =>
        rw [List.flatMap_cons, List.flatMap_cons]
        exact List.append_left_lt ih
    | rel hless =>
        rw [List.flatMap_cons, List.flatMap_cons]
        exact encode_lt (UInt32.lt_iff_toNat_lt.mp hless) _ _
  rw [bytesOf_eq, bytesOf_eq]
  exact hchars h

theorem bytesOf_lt_iff {first second : String} :
    bytesOf first < bytesOf second ↔ first < second := by
  refine ⟨fun hbytes => ?_, bytesOf_lt⟩
  apply String.not_le.mp
  intro hge
  by_cases hsame : first = second
  · rw [hsame] at hbytes
    exact List.lt_irrefl _ hbytes
  · have hless : second < first := String.not_le.mp fun hle => hsame (String.le_antisymm hle hge)
    exact List.lt_asymm hbytes (bytesOf_lt hless)

theorem compare_eq_lt_iff {first second : String} :
    compare first second = .lt ↔ first < second :=
  compareOfLessAndEq_eq_lt

theorem map_bytesOf_lt {first second : List String} (h : compare first second = .lt) :
    first.map bytesOf < second.map bytesOf := by
  induction first generalizing second with
  | nil =>
      cases second with
      | nil => exact absurd h (by simp)
      | cons text rest => exact List.nil_lt_cons _ _
  | cons text rest ih =>
      cases second with
      | nil => exact absurd h (by simp)
      | cons other others =>
          rw [List.compare_eq_compareLex, List.compareLex_cons_cons, Ordering.then_eq_lt] at h
          rw [List.map_cons, List.map_cons, List.cons_lt_cons_iff]
          rcases h with hless | ⟨hsame, hrest⟩
          · exact .inl (bytesOf_lt (compare_eq_lt_iff.mp hless))
          · rw [Std.LawfulEqCmp.eq_of_compare hsame]
            exact .inr ⟨rfl, ih hrest⟩

end Text

end MediaMigration
