import Mathlib
import MediaMigration.Proofs.ResourceName.LegalName
import MediaMigration.Proofs.Text.Ascii

/-!
# Letter case in names

A name is in lower case throughout, so the case of the ASCII letters of a text does not show in the
name made of it. A letter is a cased one in either case, so not even the form of a capital sigma
depends on it, which is chosen by the letters around it.
-/

namespace MediaMigration

namespace Text

def capitals : List Char :=
  "ABCDEFGHIJKLMNOPQRSTUVWXYZ".toList

theorem mem_capitals_of_isUpper {c : Char} (h : c.isUpper = true) : c ∈ capitals := by
  have hascii : c.toNat < 128 := isAscii_of_isAlphanum (by simp [Char.isAlphanum, Char.isAlpha, h])
  exact forall_ascii (fun c => c.isUpper = true → c ∈ capitals) (by decide +kernel) hascii h

/-- What relates each capital to its lower-case form, and each character to itself, relates every
character to its lower-case form. -/
theorem forall_toLower (related : Char → Char → Prop) (hsame : ∀ c, related c c)
    (hcapital : ∀ c ∈ capitals, related c c.toLower) (c : Char) : related c c.toLower := by
  by_cases hc : c.isUpper = true
  · exact hcapital c (mem_capitals_of_isUpper hc)
  · rw [Char.toLower_eq_of_not_isUpper hc]
    exact hsame c

theorem toLower_eq_iff {mark : Char} (hmark : mark.isAlpha = false) (c : Char) :
    c.toLower = mark ↔ c = mark := by
  by_cases hc : c.isAlpha = true
  · have hlower : c.toLower.isAlpha = true := by rw [Char.isAlpha_toLower_eq_isAlpha, hc]
    have hother : ∀ letter : Char, letter.isAlpha = true → letter ≠ mark := by
      rintro letter hletter rfl
      rw [hletter] at hmark
      exact absurd hmark (by decide)
    exact iff_of_false (hother _ hlower) (hother _ hc)
  · have hupper : ¬ c.isUpper = true := fun hupper => hc (by simp [Char.isAlpha, hupper])
    rw [Char.toLower_eq_of_not_isUpper hupper]

end Text

namespace Unicode

/-- No character between two code points is in a table whose ranges lie in front or behind. -/
theorem not_memberOf {table : List CodeRange} {first last : Nat}
    (h : (table.all fun range => range.2 < first || last < range.1) = true) {c : Char}
    (hfirst : first ≤ c.toNat) (hlast : c.toNat ≤ last) : memberOf table c = false := by
  refine List.any_eq_false.mpr fun range hrange hholds => ?_
  have haway := List.all_eq_true.mp h range hrange
  simp only [CodeRange.holds, Bool.and_eq_true, Bool.or_eq_true, decide_eq_true_eq] at haway hholds
  omega

theorem spec_of_mem_capitals {c : Char} (h : c ∈ Text.capitals) :
    isCased c.toLower = isCased c ∧ isCaseIgnorable c.toLower = isCaseIgnorable c ∧
      lowercaseChar c.toLower = lowercaseChar c := by
  have hforms : ∀ c ∈ Text.capitals, isCased c.toLower = isCased c ∧
      lowercaseChar c.toLower = lowercaseChar c :=
    ResourceName.forall_mem_of_all (by decide +kernel)
  have hletters : ∀ c ∈ Text.capitals, (0x41 ≤ c.toNat ∧ c.toNat ≤ 0x5A) ∧
      0x61 ≤ c.toLower.toNat ∧ c.toLower.toNat ≤ 0x7A :=
    ResourceName.forall_mem_of_all (by decide +kernel)
  obtain ⟨hupper, hlower⟩ := hletters c h
  have hcapital : isCaseIgnorable c = false := not_memberOf (by decide +kernel) hupper.1 hupper.2
  have hsmall : isCaseIgnorable c.toLower = false :=
    not_memberOf (by decide +kernel) hlower.1 hlower.2
  exact ⟨(hforms c h).1, by rw [hcapital, hsmall], (hforms c h).2⟩

@[simp] theorem isCased_toLower (c : Char) : isCased c.toLower = isCased c :=
  Text.forall_toLower (fun c d => isCased d = isCased c) (fun _ => rfl)
    (fun _ hc => (spec_of_mem_capitals hc).1) c

@[simp] theorem isCaseIgnorable_toLower (c : Char) :
    isCaseIgnorable c.toLower = isCaseIgnorable c :=
  Text.forall_toLower (fun c d => isCaseIgnorable d = isCaseIgnorable c) (fun _ => rfl)
    (fun _ hc => (spec_of_mem_capitals hc).2.1) c

@[simp] theorem lowercaseChar_toLower (c : Char) : lowercaseChar c.toLower = lowercaseChar c :=
  Text.forall_toLower (fun c d => lowercaseChar d = lowercaseChar c) (fun _ => rfl)
    (fun _ hc => (spec_of_mem_capitals hc).2.2) c

theorem reachesCased_toLower (chars : List Char) :
    reachesCased (chars.map Char.toLower) = reachesCased chars := by
  have hignorable : isCaseIgnorable ∘ Char.toLower = isCaseIgnorable :=
    funext isCaseIgnorable_toLower
  rw [reachesCased, reachesCased, List.dropWhile_map, hignorable]
  cases chars.dropWhile isCaseIgnorable with
  | nil => rfl
  | cons c rest => exact isCased_toLower c

@[simp] theorem lowercaseBetween_toLower (before : List Char) (c : Char) (after : List Char) :
    lowercaseBetween (before.map Char.toLower) c.toLower (after.map Char.toLower) =
      lowercaseBetween before c after := by
  rw [lowercaseBetween, lowercaseBetween, endsWord, endsWord, reachesCased_toLower,
    reachesCased_toLower, lowercaseChar_toLower]
  exact ite_congr (propext (Text.toLower_eq_iff (by decide) c)) (fun _ => rfl) fun _ => rfl

@[simp] theorem lowercaseFrom_toLower (before text : List Char) :
    lowercaseFrom (before.map Char.toLower) (text.map Char.toLower) =
      lowercaseFrom before text := by
  induction text generalizing before with
  | nil => rfl
  | cons c rest ih =>
      rw [List.map_cons, lowercaseFrom, lowercaseFrom, lowercaseBetween_toLower, ← List.map_cons,
        ih]

@[simp] theorem lowercase_toLower (text : List Char) :
    lowercase (text.map Char.toLower) = lowercase text :=
  lowercaseFrom_toLower [] text

end Unicode

namespace ResourceName

theorem isParenthesis_toLower (c : Char) : isParenthesis c.toLower = isParenthesis c := by
  have hmark : ∀ mark : Char, mark.isAlpha = false → (c.toLower == mark) = (c == mark) := by
    intro mark hmark
    rw [Bool.eq_iff_iff, beq_iff_eq, beq_iff_eq, Text.toLower_eq_iff hmark]
  rw [isParenthesis, isParenthesis, hmark '(' (by decide), hmark ')' (by decide)]

theorem separatorToHyphen_toLower (c : Char) :
    separatorToHyphen c.toLower = (separatorToHyphen c).toLower := by
  have hseparators : (c.toLower = ' ' ∨ c.toLower = '_' ∨ c.toLower = ':' ∨ c.toLower = '.') ↔
      (c = ' ' ∨ c = '_' ∨ c = ':' ∨ c = '.') :=
    or_congr (Text.toLower_eq_iff (by decide) c) (or_congr (Text.toLower_eq_iff (by decide) c)
      (or_congr (Text.toLower_eq_iff (by decide) c) (Text.toLower_eq_iff (by decide) c)))
  by_cases hc : c = ' ' ∨ c = '_' ∨ c = ':' ∨ c = '.'
  · rw [separatorToHyphen, separatorToHyphen, if_pos hc, if_pos (hseparators.mpr hc)]
    rfl
  · rw [separatorToHyphen, separatorToHyphen, if_neg hc, if_neg (mt hseparators.mp hc)]

theorem normalize_toLower (text : List Char) :
    normalize (text.map Char.toLower) = normalize text := by
  have hparenthesis : (fun c => !isParenthesis c) ∘ Char.toLower = fun c => !isParenthesis c :=
    funext fun c => congrArg not (isParenthesis_toLower c)
  have hseparator : separatorToHyphen ∘ Char.toLower = Char.toLower ∘ separatorToHyphen :=
    funext separatorToHyphen_toLower
  rw [normalize, normalize, List.filter_map, hparenthesis, List.map_map, hseparator,
    ← List.map_map, Unicode.lowercase_toLower]

/-- A name shows nothing of the case of the ASCII letters of its text. -/
theorem sanitizeChars_congr {text other : List Char}
    (h : text.map Char.toLower = other.map Char.toLower) :
    sanitizeChars text = sanitizeChars other := by
  have hnormalize : normalize text = normalize other := by
    rw [← normalize_toLower text, h, normalize_toLower]
  rw [sanitizeChars, hnormalize, ← sanitizeChars]

end ResourceName

end MediaMigration
