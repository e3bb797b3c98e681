import Mathlib.Data.List.Chain
import Mathlib.Data.List.DropRight
import MediaMigration.Proofs.Unicode.Lowercase
import MediaMigration.ResourceName

/-!
# Legal names

The names that the steps of `sanitize` aim at, said without the steps. Each step keeps what
the steps before it gave: the settled characters from lower-casing on, the single hyphens
from the collapse on, the letter or digit in front from then on. The cut can only bring out
a hyphen at the end, which the step behind it takes away, and that leaves something since
the first character is no hyphen; so the padding never follows a hyphen.
-/

namespace MediaMigration

namespace ResourceName

def separators : List Char :=
  [' ', '_', ':', '.', '(', ')']

/-- A name that a storage service accepts. -/
structure IsLegal (name : String) : Prop where
  three_le_length : 3 ≤ name.length
  length_le_sixtyThree : name.length ≤ 63
  starts_alphanumeric : ∃ c rest, name.toList = c :: rest ∧ Unicode.isAlphanumeric c = true
  no_hyphen_at_end : name.toList.getLast? ≠ some '-'
  no_double_hyphen : ¬ ['-', '-'] <:+: name.toList
  no_separator : ∀ c ∈ name.toList, c ∉ separators
  lower_case : Unicode.lowercase name.toList = name.toList

theorem forall_mem_of_all {chars : List Char} {holds : Char → Prop} [DecidablePred holds]
    (h : chars.all (fun c => decide (holds c)) = true) : ∀ c ∈ chars, holds c :=
  fun c hc => of_decide_eq_true (List.all_eq_true.mp h c hc)

/-! ## What the steps give and keep -/

def stripped (text : List Char) : List Char :=
  (text.filter fun c => !isParenthesis c).map separatorToHyphen

/-- A character that no step changes or takes away because of what it is. -/
def IsClean (c : Char) : Prop :=
  Unicode.IsSettled c ∧ c ∉ separators

/-- Two neighbours that are not both hyphens. -/
def Apart (c d : Char) : Prop :=
  ¬ (c = '-' ∧ d = '-')

theorem isClean_filler : IsClean filler := by
  refine ⟨⟨by decide, by decide⟩, by decide⟩

/-- Letters and digits are none of the marks that names and tokens are written with. -/
theorem ne_mark_of_alphanumeric {c : Char} (h : Unicode.isAlphanumeric c = true) :
    ∀ mark ∈ ['-', '/', '$', '{', '}'], c ≠ mark := by
  have hmarks : ∀ mark ∈ ['-', '/', '$', '{', '}'], Unicode.isAlphanumeric mark = false :=
    forall_mem_of_all (by decide +kernel)
  rintro mark hmark rfl
  rw [hmarks c hmark] at h
  exact absurd h (by decide)

@[simp] theorem filler_alphanumeric : Unicode.isAlphanumeric filler = true := by
  decide

theorem separatorToHyphen_not_mem {c : Char} (h : isParenthesis c = false) :
    separatorToHyphen c ∉ separators := by
  simp only [isParenthesis, Bool.or_eq_false_iff, beq_eq_false_iff_ne] at h
  unfold separatorToHyphen
  split
  · decide
  · next hc =>
      simp only [not_or] at hc
      simp [separators, hc, h]

theorem mem_of_mem_stripped {text : List Char} {c : Char} (h : c ∈ stripped text) (hc : c ≠ '-') :
    c ∈ text := by
  obtain ⟨source, hsource, hform⟩ := List.mem_map.mp h
  have hsame : source = c := by
    unfold separatorToHyphen at hform
    split at hform
    · exact absurd hform.symm hc
    · exact hform
  rw [← hsame]
  exact List.mem_of_mem_filter hsource

theorem separators_below_letters {c : Char} (h : c ∈ separators) : c.toNat < 0x61 := by
  simp only [separators, List.mem_cons, List.not_mem_nil, or_false] at h
  rcases h with rfl | rfl | rfl | rfl | rfl | rfl <;> decide

theorem isClean_of_mem_normalize {text : List Char} {c : Char} (h : c ∈ normalize text) :
    IsClean c := by
  refine ⟨Unicode.isSettled_of_mem_lowercase h, fun hc => ?_⟩
  have hmem := Unicode.mem_of_mem_lowercase h (separators_below_letters hc)
  obtain ⟨d, hd, rfl⟩ := List.mem_map.mp hmem
  have hparen := (List.mem_filter.mp hd).2
  exact separatorToHyphen_not_mem (by simpa using hparen) hc

theorem dropTrailingHyphens_eq (text : List Char) :
    dropTrailingHyphens text = text.rdropWhile isHyphen := rfl

theorem dropTrailingHyphens_isPrefixOf (text : List Char) : dropTrailingHyphens text <+: text :=
  List.rdropWhile_prefix isHyphen text

theorem mem_of_mem_trimHyphens {text : List Char} {c : Char} (h : c ∈ trimHyphens text) :
    c ∈ text := by
  exact (List.dropWhile_sublist isHyphen).mem ((dropTrailingHyphens_isPrefixOf _).sublist.mem h)

theorem mem_of_mem_collapseHyphens {text : List Char} {c : Char} (h : c ∈ collapseHyphens text) :
    c ∈ text := by
  induction text with
  | nil => exact h
  | cons d rest ih =>
      unfold collapseHyphens at h
      split at h
      · exact List.mem_cons_of_mem _ (ih h)
      · rcases List.mem_cons.mp h with rfl | h
        · exact List.mem_cons_self ..
        · exact List.mem_cons_of_mem _ (ih h)

@[simp] theorem head?_collapseHyphens (text : List Char) :
    (collapseHyphens text).head? = text.head? := by
  induction text with
  | nil => rfl
  | cons c rest ih =>
      unfold collapseHyphens
      split
      · next h => rw [ih, h.2, h.1, List.head?_cons]
      · rfl

theorem isChain_collapseHyphens (text : List Char) :
    (collapseHyphens text).IsChain Apart := by
  induction text with
  | nil => exact .nil
  | cons c rest ih =>
      unfold collapseHyphens
      split
      · exact ih
      · next h =>
          refine List.isChain_cons.mpr ⟨fun d hd hboth => h ⟨hboth.1, ?_⟩, ih⟩
          rw [← head?_collapseHyphens, ← hboth.2]
          exact hd

theorem collapseHyphens_of_isChain {text : List Char} (h : text.IsChain Apart) :
    collapseHyphens text = text := by
  induction text with
  | nil => rfl
  | cons c rest ih =>
      obtain ⟨hhead, hrest⟩ := List.isChain_cons.mp h
      have hnot : ¬ (c = '-' ∧ rest.head? = some '-') := fun hboth =>
        hhead '-' hboth.2 ⟨hboth.1, rfl⟩
      rw [collapseHyphens, if_neg hnot, ih hrest]

theorem isChain_apart_iff {text : List Char} :
    text.IsChain Apart ↔ ¬ ['-', '-'] <:+: text := by
  rw [List.isChain_iff_forall_rel_of_append_cons_cons]
  constructor
  · rintro h ⟨before, after, rfl⟩
    have hsplit : before ++ ['-', '-'] ++ after = before ++ '-' :: '-' :: after := by simp
    exact h hsplit ⟨rfl, rfl⟩
  · rintro h c d before after rfl ⟨rfl, rfl⟩
    exact h ⟨before, after, by simp⟩

def StartsAlphanumeric (text : List Char) : Prop :=
  ∃ c rest, text = c :: rest ∧ Unicode.isAlphanumeric c = true

theorem startsAlphanumeric_iff {text : List Char} :
    startsAlphanumeric text = true ↔ StartsAlphanumeric text := by
  cases text <;> simp [startsAlphanumeric, StartsAlphanumeric]

theorem StartsAlphanumeric.take {text : List Char} (h : StartsAlphanumeric text) (count : Nat) :
    StartsAlphanumeric (text.take (count + 1)) := by
  obtain ⟨c, rest, rfl, hc⟩ := h
  exact ⟨c, rest.take count, rfl, hc⟩

theorem StartsAlphanumeric.append {text : List Char} (h : StartsAlphanumeric text)
    (more : List Char) : StartsAlphanumeric (text ++ more) := by
  obtain ⟨c, rest, rfl, hc⟩ := h
  exact ⟨c, rest ++ more, rfl, hc⟩

theorem isHyphen_eq_false_of_alphanumeric {c : Char} (h : Unicode.isAlphanumeric c = true) :
    isHyphen c = false := by
  exact beq_eq_false_iff_ne.mpr (ne_mark_of_alphanumeric h '-' (by decide))

/-- Dropping hyphens from the end cannot reach a letter or a digit in front. -/
theorem StartsAlphanumeric.dropTrailingHyphens {text : List Char} (h : StartsAlphanumeric text) :
    StartsAlphanumeric (ResourceName.dropTrailingHyphens text) := by
  obtain ⟨c, rest, rfl, hc⟩ := h
  rw [dropTrailingHyphens_eq]
  obtain ⟨tail, htail⟩ := List.rdropWhile_prefix isHyphen (c :: rest)
  cases hdrop : (c :: rest).rdropWhile isHyphen with
  | nil =>
      have hall := List.rdropWhile_eq_nil_iff.mp hdrop c (List.mem_cons_self ..)
      rw [isHyphen_eq_false_of_alphanumeric hc] at hall
      exact absurd hall (by decide)
  | cons d others =>
      rw [hdrop] at htail
      rw [(List.cons.inj htail).1]
      exact ⟨c, others, rfl, hc⟩

theorem getLast?_dropTrailingHyphens (text : List Char) :
    (dropTrailingHyphens text).getLast? ≠ some '-' := by
  rw [dropTrailingHyphens_eq]
  intro h
  obtain ⟨hne, hlast⟩ := List.mem_getLast?_eq_getLast h
  exact List.rdropWhile_last_not isHyphen text hne (by rw [← hlast]; rfl)

theorem dropTrailingHyphens_of_getLast? {text : List Char} (h : text.getLast? ≠ some '-') :
    dropTrailingHyphens text = text := by
  rw [dropTrailingHyphens_eq, List.rdropWhile_eq_self_iff]
  intro hne hlast
  refine h ?_
  rw [List.getLast?_eq_some_getLast hne, eq_of_beq hlast]

theorem startsAlphanumeric_ensureStart (text : List Char) :
    StartsAlphanumeric (ensureStart text) := by
  unfold ensureStart
  split
  · next h => exact startsAlphanumeric_iff.mp h
  · exact ⟨filler, text, rfl, filler_alphanumeric⟩

theorem mem_ensureStart {text : List Char} {c : Char} (h : c ∈ ensureStart text) :
    c = filler ∨ c ∈ text := by
  unfold ensureStart at h
  split at h
  · exact .inr h
  · exact List.mem_cons.mp h

theorem isChain_ensureStart {text : List Char} (h : text.IsChain Apart) :
    (ensureStart text).IsChain Apart := by
  unfold ensureStart
  split
  · exact h
  · exact List.isChain_cons.mpr ⟨fun d _ hboth => absurd hboth.1 (by decide), h⟩

theorem isChain_pad {text : List Char} (h : text.IsChain Apart) : (pad text).IsChain Apart := by
  have hfiller : Apart filler filler := fun hboth => absurd hboth.1 (by decide)
  refine List.IsChain.append h (List.isChain_replicate_of_rel _ hfiller) fun c _ d hd hboth => ?_
  have hmem := List.mem_of_mem_head? hd
  rw [(List.mem_replicate.mp hmem).2] at hboth
  exact absurd hboth.2 (by decide)

theorem getLast?_pad {text : List Char} (h : text.getLast? ≠ some '-') :
    (pad text).getLast? ≠ some '-' := by
  unfold pad
  cases hcount : minLength - text.length with
  | zero => simpa using h
  | succ count =>
      rw [List.replicate_succ', ← List.append_assoc, List.getLast?_concat]
      decide

@[simp] theorem length_pad (text : List Char) : (pad text).length = max minLength text.length := by
  simp only [pad, List.length_append, List.length_replicate]
  omega

/-! ## Steps on two parts of a text -/

variable {front behind : List Char}

theorem dropWhile_isHyphen_append (h : behind.head? ≠ some '-') (front : List Char) :
    (front ++ behind).dropWhile isHyphen = front.dropWhile isHyphen ++ behind := by
  have hbehind : behind.dropWhile isHyphen = behind := by
    cases behind with
    | nil => rfl
    | cons c rest => exact List.dropWhile_cons_of_neg fun hc => h (congrArg some (eq_of_beq hc))
  rw [List.dropWhile_append, hbehind]
  cases front.dropWhile isHyphen <;> rfl

/-- Hyphens are dropped behind a part that does not end with one, and not in it. -/
theorem dropTrailingHyphens_append (h : front.getLast? ≠ some '-') (behind : List Char) :
    dropTrailingHyphens (front ++ behind) = front ++ dropTrailingHyphens behind := by
  have hhead : front.reverse.head? ≠ some '-' := by rwa [List.head?_reverse]
  rw [dropTrailingHyphens, List.reverse_append, dropWhile_isHyphen_append hhead,
    List.reverse_append, List.reverse_reverse, dropTrailingHyphens]

theorem collapseHyphens_append (h : front.getLast? ≠ some '-' ∨ behind.head? ≠ some '-') :
    collapseHyphens (front ++ behind) = collapseHyphens front ++ collapseHyphens behind := by
  induction front with
  | nil => rfl
  | cons c others ih =>
      rw [List.cons_append, collapseHyphens, collapseHyphens]
      cases others with
      | nil =>
          have hapart : ¬ (c = '-' ∧ behind.head? = some '-') := by
            rintro ⟨rfl, hhead⟩
            exact h.elim (fun hlast => hlast rfl) fun hnot => hnot hhead
          have halone : ¬ (c = '-' ∧ ([] : List Char).head? = some '-') := by simp
          rw [List.nil_append, if_neg hapart, if_neg halone]
          rfl
      | cons d rest =>
          have hhead : (d :: rest ++ behind).head? = (d :: rest).head? := rfl
          rw [ih (by simpa using h), hhead]
          split <;> rfl

/-! ## Names are legal, and legal names stay -/

def clamped (text : List Char) : List Char :=
  (ensureStart (collapseHyphens (trimHyphens (normalize text)))).take maxLength

theorem sanitizeChars_eq (text : List Char) :
    sanitizeChars text = pad (dropTrailingHyphens (clamped text)) := rfl

theorem mem_sanitizeChars {text : List Char} {c : Char} (h : c ∈ sanitizeChars text) :
    c = filler ∨ c ∈ normalize text := by
  rcases List.mem_append.mp h with h | h
  · have hclamped : c ∈ clamped text := (dropTrailingHyphens_isPrefixOf _).sublist.mem h
    exact (mem_ensureStart (List.mem_of_mem_take hclamped)).imp id fun h =>
      mem_of_mem_trimHyphens (mem_of_mem_collapseHyphens h)
  · exact .inl (List.mem_replicate.mp h).2

theorem isClean_of_mem_sanitizeChars {text : List Char} {c : Char} (h : c ∈ sanitizeChars text) :
    IsClean c := by
  rcases mem_sanitizeChars h with rfl | h
  · exact isClean_filler
  · exact isClean_of_mem_normalize h

theorem isChain_sanitizeChars (text : List Char) : (sanitizeChars text).IsChain Apart := by
  have hclamped : (clamped text).IsChain Apart :=
    (isChain_ensureStart (isChain_collapseHyphens _)).take _
  refine isChain_pad ?_
  exact List.IsChain.prefix hclamped (dropTrailingHyphens_isPrefixOf _)

theorem startsAlphanumeric_sanitizeChars (text : List Char) :
    StartsAlphanumeric (sanitizeChars text) :=
  (((startsAlphanumeric_ensureStart _).take 62).dropTrailingHyphens).append _

theorem length_sanitizeChars (text : List Char) :
    3 ≤ (sanitizeChars text).length ∧ (sanitizeChars text).length ≤ 63 := by
  have hcut : (dropTrailingHyphens (clamped text)).length ≤ 63 :=
    Nat.le_trans (dropTrailingHyphens_isPrefixOf _).length_le (List.length_take_le ..)
  rw [sanitizeChars_eq, length_pad]
  simp only [minLength]
  omega

/-- Whatever a name is made of, it is legal. -/
theorem isLegal_sanitize (text : String) : IsLegal (sanitize text) := by
  obtain ⟨hlow, hhigh⟩ := length_sanitizeChars text.toList
  refine ⟨?_, ?_, ?_, ?_, ?_, ?_, ?_⟩
  · simpa [sanitize] using hlow
  · simpa [sanitize] using hhigh
  · simp only [sanitize, String.toList_ofList]
    exact startsAlphanumeric_sanitizeChars text.toList
  · simp only [sanitize, String.toList_ofList]
    exact getLast?_pad (getLast?_dropTrailingHyphens (clamped text.toList))
  · simpa [sanitize] using isChain_apart_iff.mp (isChain_sanitizeChars text.toList)
  · simp only [sanitize, String.toList_ofList]
    exact fun c hc => (isClean_of_mem_sanitizeChars hc).2
  · simp only [sanitize, String.toList_ofList]
    exact Unicode.lowercase_of_isSettled fun c hc => (isClean_of_mem_sanitizeChars hc).1

theorem stripped_of_isLegal {name : String} (h : IsLegal name) :
    stripped name.toList = name.toList := by
  have hfilter : (name.toList.filter fun c => !isParenthesis c) = name.toList := by
    refine List.filter_eq_self.mpr fun c hc => ?_
    have hsep := h.no_separator c hc
    simp only [separators, List.mem_cons, List.not_mem_nil, not_or] at hsep
    simp [isParenthesis, hsep]
  have hmap : name.toList.map separatorToHyphen = name.toList := by
    refine (List.map_congr_left fun c hc => ?_).trans (List.map_id _)
    have hsep := h.no_separator c hc
    simp only [separators, List.mem_cons, List.not_mem_nil, not_or] at hsep
    simp [separatorToHyphen, hsep]
  rw [stripped, hfilter, hmap]

theorem normalize_of_isLegal {name : String} (h : IsLegal name) :
    normalize name.toList = name.toList := by
  rw [normalize, ← stripped, stripped_of_isLegal h, h.lower_case]

/-- No step changes a legal name. -/
theorem sanitize_of_isLegal {name : String} (h : IsLegal name) : sanitize name = name := by
  obtain ⟨c, rest, hname, hc⟩ := h.starts_alphanumeric
  have hstart : StartsAlphanumeric name.toList := ⟨c, rest, hname, hc⟩
  have hleading : name.toList.dropWhile isHyphen = name.toList := by
    rw [hname, List.dropWhile_cons_of_neg (by simp [isHyphen_eq_false_of_alphanumeric hc])]
  have htrim : trimHyphens name.toList = name.toList := by
    rw [trimHyphens, hleading, dropTrailingHyphens_of_getLast? h.no_hyphen_at_end]
  have hcollapse := collapseHyphens_of_isChain (isChain_apart_iff.mpr h.no_double_hyphen)
  have hensure : ensureStart name.toList = name.toList := by
    rw [ensureStart, if_pos (startsAlphanumeric_iff.mpr hstart)]
  have htake : name.toList.take maxLength = name.toList :=
    List.take_of_length_le (by rw [String.length_toList]; exact h.length_le_sixtyThree)
  have hpad : pad name.toList = name.toList := by
    have hcount : minLength - name.toList.length = 0 := by
      have hlength := h.three_le_length
      simp only [minLength, String.length_toList]
      omega
    rw [pad, hcount, List.replicate_zero, List.append_nil]
  rw [sanitize, sanitizeChars, normalize_of_isLegal h, htrim, hcollapse, hensure, htake,
    dropTrailingHyphens_of_getLast? h.no_hyphen_at_end, hpad, String.ofList_toList]

/-- The names that texts are made into are exactly the legal names. Each of them stays as it
is when it is made into a name again, and no other text does. -/
theorem sanitize_image_and_fixed_points (text : String) :
    IsLegal (sanitize text) ∧ (sanitize text = text ↔ IsLegal text) ∧
      ((∃ source, sanitize source = text) ↔ IsLegal text) ∧
      sanitize (sanitize text) = sanitize text := by
  refine ⟨isLegal_sanitize text, ⟨fun h => ?_, sanitize_of_isLegal⟩, ⟨?_, fun h => ?_⟩,
    sanitize_of_isLegal (isLegal_sanitize text)⟩
  · rw [← h]
    exact isLegal_sanitize text
  · rintro ⟨source, rfl⟩
    exact isLegal_sanitize source
  · exact ⟨text, sanitize_of_isLegal h⟩

end ResourceName

end MediaMigration
