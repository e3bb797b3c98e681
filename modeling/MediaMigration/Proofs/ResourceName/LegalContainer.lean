import MediaMigration.Proofs.ResourceName.FrontName
import MediaMigration.Proofs.Text.Ascii

/-!
# Legal containers

The rules for names are made to hold of a whole text, and the container is cut off the name at its
first slash afterwards. Of a text in ordinary characters, the container still has at most
sixty-three characters, starts with a letter or a digit and has no two hyphens side by side. That
there are three characters and no hyphen at the end was only seen to at the end of the whole
name. So the container is legal exactly if the front of the text brings both along, or leaves no
room for the slash. The marks of tokens that were left in the text stay in it, and one of them may
be the last character of the container.
-/

namespace MediaMigration

namespace ResourceName

/-! ## Ordinary characters -/

/-- ASCII letters and digits, what separates words, parentheses, hyphens and slashes. -/
def isOrdinary (c : Char) : Bool :=
  c.isAlphanum || [' ', '_', ':', '.', '(', ')', '-', '/'].contains c

def tokenMarks : List Char :=
  ['$', '{', '}']

/-- An ASCII lower-case letter or digit. -/
def isPlain (c : Char) : Bool :=
  c.isLower || c.isDigit

theorem isAscii_of_isOrdinary {c : Char} (h : isOrdinary c = true) : c.toNat < 128 := by
  rcases Bool.or_eq_true_iff.mp h with hletter | hmark
  · exact Text.isAscii_of_isAlphanum hletter
  · have hall : ∀ mark ∈ [' ', '_', ':', '.', '(', ')', '-', '/'], mark.toNat < 128 :=
      forall_mem_of_all (by decide)
    exact hall c (List.contains_iff_mem.mp hmark)

theorem form_of_isOrdinary {c d : Char} (hc : isOrdinary c = true) (hkept : isParenthesis c = false)
    (hd : d ∈ Unicode.lowercaseChar (separatorToHyphen c)) :
    isPlain d = true ∨ d = '-' ∨ d = '/' := by
  have hforms := Text.forall_ascii (fun c => isOrdinary c = true → isParenthesis c = false →
    ((Unicode.lowercaseChar (separatorToHyphen c)).all fun d =>
      decide (isPlain d = true ∨ d = '-' ∨ d = '/')) = true)
    (by decide +kernel) (isAscii_of_isOrdinary hc)
  exact forall_mem_of_all (hforms hc hkept) d hd

theorem form_of_mem_tokenMarks : ∀ mark ∈ tokenMarks,
    Unicode.lowercaseChar (separatorToHyphen mark) = [mark] :=
  forall_mem_of_all (by decide +kernel)

/-- A text in ordinary characters, with nothing else in it than tokens that were left. -/
def IsOrdinaryText (text : List Char) : Prop :=
  ∀ c ∈ text, isOrdinary c = true ∨ c ∈ tokenMarks

theorem mem_normalize_of_isOrdinaryText {text : List Char} (h : IsOrdinaryText text) {d : Char}
    (hd : d ∈ normalize text) :
    isPlain d = true ∨ d = '-' ∨ d = '/' ∨ d ∈ tokenMarks ∧ d ∈ text := by
  obtain ⟨changed, hchanged, hform⟩ := Unicode.exists_of_mem_lowercaseFrom hd
  obtain ⟨c, hc, rfl⟩ := List.mem_map.mp hchanged
  obtain ⟨hmem, hkept⟩ := List.mem_filter.mp hc
  rcases h c hmem with hordinary | hmark
  · have hnosigma : separatorToHyphen c ≠ 'Σ' :=
      Text.forall_ascii (fun c => separatorToHyphen c ≠ 'Σ') (by decide +kernel)
        (isAscii_of_isOrdinary hordinary)
    have hplain := form_of_isOrdinary hordinary (by simpa using hkept)
      (hform.resolve_left hnosigma)
    exact hplain.imp id fun h => h.imp id .inl
  · have hself := form_of_mem_tokenMarks c hmark
    have hnosigma : ∀ mark ∈ tokenMarks, separatorToHyphen mark ≠ 'Σ' :=
      forall_mem_of_all (by decide)
    have hd := hform.resolve_left (hnosigma c hmark)
    rw [hself] at hd
    rw [List.mem_singleton.mp hd]
    exact .inr (.inr (.inr ⟨hmark, hmem⟩))

theorem isOrdinary_of_mem_tokenMarks : ∀ mark ∈ tokenMarks, isOrdinary mark = false :=
  forall_mem_of_all (by decide)

/-! ## Legal containers -/

/-- A name that a storage service accepts for a container. -/
structure IsLegalContainer (name : List Char) : Prop where
  minLength_le : minLength ≤ name.length
  le_maxLength : name.length ≤ maxLength
  starts_plain : ∃ c, name.head? = some c ∧ isPlain c = true
  ends_plain : ∃ c, name.getLast? = some c ∧ isPlain c = true
  no_double_hyphen : ¬ ['-', '-'] <:+: name

/-- The front of a text is long enough by itself and has no hyphen at its end, unless no slash
comes behind it in the name. -/
def FrontStands (text : List Char) : Prop :=
  '/' ∈ text → maxLength ≤ (frontName text).length ∨
    minLength ≤ (frontName text).length ∧ (frontName text).getLast? ≠ some '-'

instance (text : List Char) : Decidable (FrontStands text) :=
  inferInstanceAs (Decidable (_ → _))

variable {text : List Char}

theorem slash_not_mem_containerOf (text : List Char) : '/' ∉ containerOf text := by
  rcases containerOf_cases text with ⟨hwhole, hlong⟩ | ⟨_, _, hfront⟩
  · rw [hwhole]
    by_cases hslash : '/' ∈ text
    · exact slash_not_mem_of_long_front hslash (hlong hslash)
    · exact slash_not_mem_sanitizeChars hslash
  · rw [hfront]
    exact slash_not_mem_frontName text

theorem mem_containerOf {c : Char} (h : c ∈ containerOf text) :
    c = filler ∨ c ∈ normalize text := by
  rcases containerOf_cases text with ⟨hwhole, _⟩ | ⟨hslash, _, hfront⟩
  · rw [hwhole] at h
    exact mem_sanitizeChars h
  · rw [hfront] at h
    obtain ⟨rest, htext⟩ := exists_behind_front hslash
    refine (mem_frontName h).imp id fun hmem => ?_
    rw [htext, normalize_slash]
    exact List.mem_append_left _ hmem

/-- What the characters of a container are. -/
theorem isPlain_of_mem_containerOf (htext : IsOrdinaryText text) {c : Char}
    (h : c ∈ containerOf text) : isPlain c = true ∨ c = '-' ∨ c ∈ tokenMarks ∧ c ∈ text := by
  rcases mem_containerOf h with rfl | hmem
  · exact .inl (by decide)
  · rcases mem_normalize_of_isOrdinaryText htext hmem with hplain | hhyphen | hslash | hmark
    · exact .inl hplain
    · exact .inr (.inl hhyphen)
    · rw [hslash] at h
      exact absurd h (slash_not_mem_containerOf text)
    · exact .inr (.inr hmark)

theorem length_containerOf_le (text : List Char) : (containerOf text).length ≤ maxLength := by
  rcases containerOf_cases text with ⟨hwhole, _⟩ | ⟨_, hshort, hfront⟩
  · rw [hwhole]
    exact (length_sanitizeChars text).2
  · rw [hfront]
    exact Nat.le_of_lt hshort

theorem no_double_hyphen_containerOf (text : List Char) : ¬ ['-', '-'] <:+: containerOf text :=
  isChain_apart_iff.mp
    (containerOf_of_both (isChain_sanitizeChars text) (isChain_frontName text))

theorem starts_plain_containerOf (htext : IsOrdinaryText text) :
    ∃ c, (containerOf text).head? = some c ∧ isPlain c = true := by
  have hstart : StartsAlphanumeric (containerOf text) :=
    containerOf_of_both (startsAlphanumeric_sanitizeChars text) (startsAlphanumeric_frontName text)
  obtain ⟨c, rest, hcontainer, halpha⟩ := hstart
  have hmem : c ∈ containerOf text := by
    rw [hcontainer]
    exact List.mem_cons_self
  refine ⟨c, by rw [hcontainer]; rfl, ?_⟩
  have hnoMark := ne_mark_of_alphanumeric halpha
  rcases isPlain_of_mem_containerOf htext hmem with hplain | hhyphen | hmark
  · exact hplain
  · exact absurd hhyphen (hnoMark '-' (by decide))
  · exact absurd rfl (hnoMark c (List.mem_cons_of_mem _ (List.mem_cons_of_mem _ hmark.1)))

/-- The end of a container, if its front stands. -/
theorem ends_of_frontStands (h : FrontStands text) :
    minLength ≤ (containerOf text).length ∧ (containerOf text).getLast? ≠ some '-' := by
  rcases containerOf_cases text with ⟨hwhole, _⟩ | ⟨hslash, hshort, hfront⟩
  · -- the end of the name is the end of the container, and the last steps have seen to it
    rw [hwhole]
    exact ⟨(length_sanitizeChars text).1, getLast?_pad (getLast?_dropTrailingHyphens _)⟩
  · rw [hfront]
    exact (h hslash).resolve_left (Nat.not_le_of_lt hshort)

theorem isLegalContainer_iff (htext : IsOrdinaryText text) :
    IsLegalContainer (containerOf text) ↔
      FrontStands text ∧ ∀ mark ∈ tokenMarks, (containerOf text).getLast? ≠ some mark := by
  constructor
  · intro hlegal
    obtain ⟨last, hlast, hplain⟩ := hlegal.ends_plain
    have hother : ∀ c, isPlain c = false → (containerOf text).getLast? ≠ some c := by
      intro c hc heq
      rw [hlast, Option.some.injEq] at heq
      rw [← heq, hplain] at hc
      exact absurd hc (by decide)
    have hmarks : ∀ mark ∈ tokenMarks, isPlain mark = false := forall_mem_of_all (by decide)
    refine ⟨fun hslash => ?_, fun mark hmark => hother mark (hmarks mark hmark)⟩
    rcases containerOf_cases text with ⟨_, hlong⟩ | ⟨_, _, hfront⟩
    · exact .inl (hlong hslash)
    · rw [← hfront]
      exact .inr ⟨hlegal.minLength_le, hother '-' (by decide)⟩
  · rintro ⟨hfront, hmarks⟩
    obtain ⟨hlong, hhyphen⟩ := ends_of_frontStands hfront
    refine ⟨hlong, length_containerOf_le text, starts_plain_containerOf htext, ?_,
      no_double_hyphen_containerOf text⟩
    have hne : containerOf text ≠ [] := by
      intro hnil
      rw [hnil] at hlong
      exact absurd hlong (by decide)
    have hlast := List.getLast?_eq_some_getLast hne
    refine ⟨_, hlast, ?_⟩
    rcases isPlain_of_mem_containerOf htext (List.getLast_mem hne) with hplain | heq | hmark
    · exact hplain
    · exact absurd (hlast.trans (congrArg some heq)) hhyphen
    · exact absurd hlast (hmarks _ hmark.1)

end ResourceName

end MediaMigration
