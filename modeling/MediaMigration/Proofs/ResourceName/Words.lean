import MediaMigration.Proofs.ResourceName.LegalContainer

/-!
# Names as joined words

A name can be told without the steps that make it. A text is spelled in lower case, with hyphens in
place of separators and without parentheses, and what stands between the hyphens are its words. The
name is these words with single hyphens between them, cut off behind sixty-three characters and
filled up to three. Trimming and collapsing hyphens only take away empty words: neither changes the
words of a text, and a text that is trimmed and collapsed has no empty ones.
-/

namespace MediaMigration

namespace ResourceName

/-! ## Words -/

/-- How a character is spelled: parentheses vanish, and a hyphen stands for a separator. -/
def spell (c : Char) : List Char :=
  if c ∈ ['(', ')'] then [] else if c ∈ [' ', '_', ':', '.'] then ['-'] else [c]

/-- A text as its words are spelled. -/
def spelled (text : List Char) : List Char :=
  Unicode.lowercase (text.flatMap spell)

/-- What stands between the hyphens of a text, where something does. -/
def wordsOf (text : List Char) : List (List Char) :=
  (text.splitOn '-').filter (· ≠ [])

/-- The words of a text with single hyphens between them. -/
def joinedWords (text : List Char) : List Char :=
  ['-'].intercalate (wordsOf (spelled text))

/-- What comes in front of words that do not start with a letter or a digit. -/
def lead (line : List Char) : List Char :=
  if line.head?.any Unicode.isAlphanumeric then [] else ['a']

/-- The words of a text behind what comes in front of them. -/
def wordLine (text : List Char) : List Char :=
  lead (joinedWords text) ++ joinedWords text

def withoutFinalHyphen (text : List Char) : List Char :=
  if text.getLast? = some '-' then text.dropLast else text

/-- Small letters and digits with hyphens inside: `[a-z0-9][a-z0-9-]*[a-z0-9]`. -/
def IsHyphenated (name : List Char) : Prop :=
  ∃ first middle last, name = first :: (middle ++ [last]) ∧ isPlain first = true ∧
    (∀ c ∈ middle, isPlain c = true ∨ c = '-') ∧ isPlain last = true

theorem spell_eq (c : Char) :
    spell c = if isParenthesis c then [] else [separatorToHyphen c] := by
  have hparen : isParenthesis c = true ↔ c ∈ ['(', ')'] := by simp [isParenthesis]
  rw [spell]
  simp only [hparen]
  split
  · rfl
  · rw [separatorToHyphen]
    simp only [List.mem_cons, List.not_mem_nil, or_false]
    split <;> rfl

theorem normalize_eq_spelled (text : List Char) : normalize text = spelled text := by
  rw [normalize, spelled]
  congr 1
  induction text with
  | nil => rfl
  | cons c rest ih =>
      rw [List.flatMap_cons, spell_eq, ← ih]
      by_cases h : isParenthesis c
      · rw [if_pos h, List.filter_cons_of_neg (by simp [h]), List.nil_append]
      · rw [if_neg h, List.filter_cons_of_pos (by simp [h]), List.map_cons, List.singleton_append]

/-! ## Hyphens between words -/

@[simp] theorem wordsOf_append_hyphen (front rest : List Char) :
    wordsOf (front ++ '-' :: rest) = wordsOf front ++ wordsOf rest := by
  rw [wordsOf, List.splitOn_append_cons_self, List.filter_append]
  rfl

@[simp] theorem wordsOf_hyphen_cons (rest : List Char) : wordsOf ('-' :: rest) = wordsOf rest :=
  wordsOf_append_hyphen [] rest

@[simp] theorem wordsOf_dropWhile (text : List Char) :
    wordsOf (text.dropWhile isHyphen) = wordsOf text := by
  induction text with
  | nil => rfl
  | cons c rest ih =>
      by_cases h : isHyphen c
      · rw [List.dropWhile_cons_of_pos h, ih, eq_of_beq h, wordsOf_hyphen_cons]
      · rw [List.dropWhile_cons_of_neg h]

theorem wordsOf_dropTrailingHyphens (text : List Char) :
    wordsOf (dropTrailingHyphens text) = wordsOf text := by
  rw [dropTrailingHyphens_eq]
  induction text using List.reverseRecOn with
  | nil => rfl
  | append_singleton front c ih =>
      by_cases h : isHyphen c
      · rw [List.rdropWhile_concat_pos _ _ _ h, ih, eq_of_beq h, wordsOf_append_hyphen]
        exact (List.append_nil _).symm
      · rw [List.rdropWhile_concat_neg _ _ _ h]

theorem wordsOf_append_collapseHyphens (front text : List Char) :
    wordsOf (front ++ collapseHyphens text) = wordsOf (front ++ text) := by
  induction text generalizing front with
  | nil => rfl
  | cons c rest ih =>
      rw [collapseHyphens]
      split
      · next h =>
          obtain ⟨rfl, hhead⟩ := h
          obtain ⟨others, rfl⟩ := List.head?_eq_some_iff.mp hhead
          rw [ih, wordsOf_append_hyphen, wordsOf_append_hyphen, wordsOf_hyphen_cons]
      · have hrest := ih (front ++ [c])
        rwa [List.append_assoc, List.append_assoc] at hrest

/-- Trimming and collapsing hyphens does not change the words of a text. -/
@[simp] theorem wordsOf_collapse_trim (text : List Char) :
    wordsOf (collapseHyphens (trimHyphens text)) = wordsOf text := by
  have hcollapse := wordsOf_append_collapseHyphens [] (trimHyphens text)
  rw [List.nil_append, List.nil_append] at hcollapse
  rw [hcollapse, trimHyphens, wordsOf_dropTrailingHyphens, wordsOf_dropWhile]

/-! ## Texts without idle hyphens -/

theorem getLast?_collapseHyphens (text : List Char) :
    (collapseHyphens text).getLast? = text.getLast? := by
  induction text with
  | nil => rfl
  | cons c rest ih =>
      rw [collapseHyphens]
      split
      · next h =>
          obtain ⟨others, rfl⟩ := List.head?_eq_some_iff.mp h.2
          rw [ih, List.getLast?_cons_cons]
      · rw [List.getLast?_cons, List.getLast?_cons, ih]

/-- A text whose hyphens all stand between two words. -/
structure IsTidy (text : List Char) : Prop where
  no_hyphen_in_front : text.head? ≠ some '-'
  no_hyphen_at_end : text.getLast? ≠ some '-'
  no_double_hyphen : text.IsChain Apart

theorem head?_trimHyphens (text : List Char) : (trimHyphens text).head? ≠ some '-' := by
  intro h
  obtain ⟨others, hothers⟩ := List.head?_eq_some_iff.mp h
  obtain ⟨behind, hbehind⟩ := dropTrailingHyphens_isPrefixOf (text.dropWhile isHyphen)
  have hfirst := List.head?_dropWhile_not isHyphen text
  rw [trimHyphens] at hothers
  rw [← hbehind, hothers] at hfirst
  simp [isHyphen] at hfirst

theorem isTidy_collapse_trim (text : List Char) :
    IsTidy (collapseHyphens (trimHyphens text)) := by
  refine ⟨?_, ?_, isChain_collapseHyphens _⟩
  · rw [head?_collapseHyphens]
    exact head?_trimHyphens text
  · rw [getLast?_collapseHyphens]
    exact getLast?_dropTrailingHyphens _

theorem IsTidy.of_append {front behind : List Char} (h : IsTidy (front ++ '-' :: behind)) :
    front ≠ [] ∧ behind ≠ [] ∧ IsTidy behind := by
  obtain ⟨hfront, hend, hchain⟩ := h
  have hbehind : behind ≠ [] := by
    rintro rfl
    exact hend List.getLast?_concat
  refine ⟨?_, hbehind, ?_, ?_, ?_⟩
  · rintro rfl
    exact hfront rfl
  · intro hhead
    exact (List.isChain_cons.mp (hchain.suffix (List.suffix_append _ _))).1 '-' hhead ⟨rfl, rfl⟩
  · rwa [List.getLast?_append_of_ne_nil _ (List.cons_ne_nil _ _), List.getLast?_cons_of_ne_nil hbehind]
      at hend
  · exact (List.isChain_cons.mp (hchain.suffix (List.suffix_append _ _))).2

theorem IsTidy.nil_not_mem {parts : List (List Char)} (h : IsTidy (['-'].intercalate parts))
    (hne : ['-'].intercalate parts ≠ []) : [] ∉ parts := by
  induction parts with
  | nil => exact List.not_mem_nil
  | cons part others ih =>
      cases others with
      | nil =>
          rw [List.intercalate_singleton] at hne
          simpa using hne.symm
      | cons next rest =>
          have hsplit : ['-'].intercalate (part :: next :: rest) =
              part ++ '-' :: ['-'].intercalate (next :: rest) := by
            rw [List.intercalate_cons_cons, List.append_assoc]
            rfl
          rw [hsplit] at h
          obtain ⟨hpart, hbehind, htidy⟩ := h.of_append
          rw [List.mem_cons, not_or]
          exact ⟨hpart.symm, ih htidy hbehind⟩

/-- A tidy text is its words with single hyphens between them. -/
theorem IsTidy.intercalate_wordsOf {text : List Char} (h : IsTidy text) :
    ['-'].intercalate (wordsOf text) = text := by
  have hparts : ['-'].intercalate (text.splitOn '-') = text := List.intercalate_splitOn '-'
  by_cases hne : text = []
  · rw [hne]
    rfl
  · have hnil : [] ∉ text.splitOn '-' :=
      IsTidy.nil_not_mem (by rwa [hparts]) (by rwa [hparts])
    have hall : (text.splitOn '-').filter (· ≠ []) = text.splitOn '-' := by
      refine List.filter_eq_self.mpr fun part hpart => ?_
      simpa using fun hempty : part = [] => hnil (hempty ▸ hpart)
    rw [wordsOf, hall, hparts]

/-- Trimmed and collapsed, a text is its words with single hyphens between them. -/
theorem collapse_trim_eq (text : List Char) :
    collapseHyphens (trimHyphens text) = ['-'].intercalate (wordsOf text) := by
  rw [← wordsOf_collapse_trim, (isTidy_collapse_trim text).intercalate_wordsOf]

/-! ## The cut and what is kept -/

theorem ensureStart_eq (line : List Char) : ensureStart line = lead line ++ line := by
  have hstart : startsAlphanumeric line = line.head?.any Unicode.isAlphanumeric := by
    cases line <;> rfl
  rw [ensureStart, lead, hstart]
  split <;> rfl

theorem beforeCut_eq_wordLine (text : List Char) : beforeCut text = wordLine text := by
  rw [beforeCut, ensureStart_eq, collapse_trim_eq, normalize_eq_spelled]
  rfl

theorem dropTrailingHyphens_of_isChain {text : List Char} (h : text.IsChain Apart) :
    dropTrailingHyphens text = withoutFinalHyphen text := by
  rw [withoutFinalHyphen]
  split
  · next hlast =>
      obtain ⟨front, rfl⟩ := List.getLast?_eq_some_iff.mp hlast
      rw [dropTrailingHyphens_eq, List.rdropWhile_concat_pos _ _ _ (by decide),
        List.dropLast_concat]
      refine dropTrailingHyphens_of_getLast? fun hfront => ?_
      obtain ⟨others, rfl⟩ := List.getLast?_eq_some_iff.mp hfront
      exact isChain_apart_iff.mp h ⟨others, [], by simp⟩
  · next hlast => exact dropTrailingHyphens_of_getLast? hlast

theorem isChain_wordLine (text : List Char) : (wordLine text).IsChain Apart := by
  rw [← beforeCut_eq_wordLine]
  exact isChain_ensureStart (isChain_collapseHyphens _)

theorem sanitizeChars_eq_wordLine (text : List Char) :
    sanitizeChars text = (withoutFinalHyphen ((wordLine text).take 63)).rightpad 3 'a' := by
  have hclamped : clamped text = (wordLine text).take 63 := by
    rw [← beforeCut_eq_wordLine]
    rfl
  rw [sanitizeChars_eq, hclamped, dropTrailingHyphens_of_isChain ((isChain_wordLine text).take 63)]
  rfl

theorem filter_intercalate (parts : List (List Char)) :
    (['-'].intercalate parts).filter (· ≠ '-') = parts.flatten.filter (· ≠ '-') := by
  induction parts with
  | nil => rfl
  | cons part others ih =>
      cases others with
      | nil => simp
      | cons next rest =>
          rw [List.intercalate_cons_cons, List.filter_append, List.filter_append, ih,
            List.flatten_cons, List.filter_append]
          simp

@[simp] theorem filter_intercalate_wordsOf (text : List Char) :
    (['-'].intercalate (wordsOf text)).filter (· ≠ '-') = text.filter (· ≠ '-') := by
  rw [filter_intercalate, wordsOf, List.flatten_filter_ne_nil, ← filter_intercalate,
    List.intercalate_splitOn]

@[simp] theorem filter_withoutFinalHyphen (text : List Char) :
    (withoutFinalHyphen text).filter (· ≠ '-') = text.filter (· ≠ '-') := by
  rw [withoutFinalHyphen]
  split
  · next hlast =>
      obtain ⟨front, rfl⟩ := List.getLast?_eq_some_iff.mp hlast
      simp
  · rfl

theorem filter_wordLine (text : List Char) :
    (wordLine text).filter (· ≠ '-') =
      lead (joinedWords text) ++ (spelled text).filter (· ≠ '-') := by
  have hlead : (lead (joinedWords text)).filter (· ≠ '-') = lead (joinedWords text) := by
    rw [lead]
    split <;> rfl
  rw [wordLine, List.filter_append, hlead, joinedWords, filter_intercalate_wordsOf]

/-! ## Names in small letters, digits and hyphens -/

theorem isPlain_or_hyphen_of_mem_sanitizeChars {text : List Char}
    (h : ∀ c ∈ text, isOrdinary c = true ∧ c ≠ '/') {c : Char} (hc : c ∈ sanitizeChars text) :
    isPlain c = true ∨ c = '-' := by
  have htext : IsOrdinaryText text := fun d hd => .inl (h d hd).1
  rcases mem_sanitizeChars hc with rfl | hmem
  · exact .inl (by decide)
  · rcases mem_normalize_of_isOrdinaryText htext hmem with hplain | hhyphen | rfl | ⟨hmark, hin⟩
    · exact .inl hplain
    · exact .inr hhyphen
    · exact absurd rfl (h '/' (slash_mem_of_mem_normalize hmem)).2
    · have hordinary := (h c hin).1
      rw [isOrdinary_of_mem_tokenMarks c hmark] at hordinary
      exact absurd hordinary (by decide)

theorem IsLegal.isHyphenated {name : String} (h : IsLegal name)
    (hchars : ∀ c ∈ name.toList, isPlain c = true ∨ c = '-') : IsHyphenated name.toList := by
  have hplain : ∀ c ∈ name.toList, c ≠ '-' → isPlain c = true := fun c hc hother =>
    (hchars c hc).resolve_right hother
  have hend := h.no_hyphen_at_end
  have hlength := h.three_le_length
  obtain ⟨first, rest, hname, hfirst⟩ := h.starts_alphanumeric
  have hbehind : rest ≠ [] := by
    rintro rfl
    rw [← String.length_toList, hname, List.length_singleton] at hlength
    omega
  obtain ⟨middle, last, rfl⟩ := (List.eq_nil_or_concat' rest).resolve_left hbehind
  rw [hname] at hchars hplain hend ⊢
  refine ⟨first, middle, last, rfl, hplain first List.mem_cons_self ?_,
    fun c hc => hchars c (by simp [hc]), hplain last (by simp) ?_⟩
  · exact ne_mark_of_alphanumeric hfirst '-' (by decide)
  · rintro rfl
    exact hend (by rw [← List.cons_append, List.getLast?_concat])

/-- A name is its text's words joined by single hyphens, without what is cut off behind sixty-three
characters and with the filler up to three. Nothing but hyphens and what is cut off is lost of the
spelled text, and letters, digits and separators of ASCII make a name of small letters and digits
with hyphens inside. -/
theorem sanitize_joins_words (text : String) :
    let line := wordLine text.toList
    let kept := withoutFinalHyphen (line.take 63)
    sanitize text = String.ofList (kept.rightpad 3 'a') ∧
      (kept ++ line.drop 63).filter (· ≠ '-') =
        lead (joinedWords text.toList) ++ (spelled text.toList).filter (· ≠ '-') ∧
      ((∀ c ∈ text.toList, isOrdinary c = true ∧ c ≠ '/') →
        IsHyphenated (sanitize text).toList) := by
  intro line kept
  refine ⟨?_, ?_, fun h => ?_⟩
  · rw [sanitize, sanitizeChars_eq_wordLine]
  · calc (kept ++ line.drop 63).filter (· ≠ '-')
        = (line.take 63).filter (· ≠ '-') ++ (line.drop 63).filter (· ≠ '-') := by
          rw [List.filter_append, filter_withoutFinalHyphen]
      _ = line.filter (· ≠ '-') := by
          rw [← List.filter_append, List.take_append_drop]
      _ = lead (joinedWords text.toList) ++ (spelled text.toList).filter (· ≠ '-') :=
          filter_wordLine text.toList
  · refine (isLegal_sanitize text).isHyphenated fun c hc => ?_
    rw [sanitize, String.toList_ofList] at hc
    exact isPlain_or_hyphen_of_mem_sanitizeChars h hc

/-- Separators in a row and at the ends make no words. -/
theorem sanitize_joins_words_of_title :
    (∀ c ∈ "_My  Video_(1).mp4 -".toList, isOrdinary c = true ∧ c ≠ '/') ∧
      sanitize "_My  Video_(1).mp4 -" = "my-video-1-mp4" ∧
      IsHyphenated "my-video-1-mp4".toList := by
  have hordinary : ∀ c ∈ "_My  Video_(1).mp4 -".toList, isOrdinary c = true ∧ c ≠ '/' :=
    forall_mem_of_all (by decide)
  have hname : sanitize "_My  Video_(1).mp4 -" = "my-video-1-mp4" := by decide +kernel
  obtain ⟨_, _, hhyphenated⟩ := sanitize_joins_words "_My  Video_(1).mp4 -"
  rw [hname] at hhyphenated
  exact ⟨hordinary, hname, hhyphenated hordinary⟩

end ResourceName

end MediaMigration
