import MediaMigration.Placement
import MediaMigration.Proofs.ResourceName.Alignment

/-!
# The front of a name

A container is what stands before the first slash of a name. Up to the cut every step of
`sanitize` works on the two sides of that slash by themselves: hyphens are not taken away across
it, and a letter is put in front of the text before it. So the front of a name is the front of
its text, taken through these steps. The steps behind the cut see the end of the whole name: the
hyphen that they take away and the filler that they add stand behind the slash, if the front
leaves room for it. A front that fills a name is a name of its own.
-/

namespace MediaMigration

namespace ResourceName

/-! ## The steps on both sides of a slash -/

theorem normalize_slash (front rest : List Char) :
    normalize (front ++ '/' :: rest) = normalize front ++ '/' :: normalize rest := by
  have hkept : ('/' :: rest).filter (fun c => !isParenthesis c) =
      '/' :: rest.filter fun c => !isParenthesis c := List.filter_cons_of_pos (by decide)
  have hsame : separatorToHyphen '/' = '/' := by decide
  rw [normalize, List.filter_append, hkept, List.map_append, List.map_cons, hsame,
    Unicode.lowercase_slash]
  rfl

@[simp] theorem dropTrailingHyphens_slash (front rest : List Char) :
    dropTrailingHyphens (front ++ '/' :: rest) = front ++ '/' :: dropTrailingHyphens rest := by
  have hlast : (front ++ ['/']).getLast? ≠ some '-' := by simp
  have hdrop := dropTrailingHyphens_append hlast rest
  rwa [List.append_assoc, List.append_assoc] at hdrop

@[simp] theorem collapseHyphens_slash (front rest : List Char) :
    collapseHyphens (front ++ '/' :: rest) =
      collapseHyphens front ++ '/' :: collapseHyphens rest := by
  have hslash : collapseHyphens ('/' :: rest) = '/' :: collapseHyphens rest :=
    if_neg fun h => absurd h.1 (by decide)
  rw [collapseHyphens_append (.inr (by simp)), hslash]

theorem ensureStart_slash (front rest : List Char) :
    ensureStart (front ++ '/' :: rest) = ensureStart front ++ '/' :: rest := by
  have hslash : Unicode.isAlphanumeric '/' = false := by decide +kernel
  cases front with
  | nil =>
      have hfilled : ensureStart ('/' :: rest) = filler :: '/' :: rest :=
        if_neg (by simp [startsAlphanumeric, hslash])
      rw [List.nil_append, hfilled]
      rfl
  | cons c others =>
      have hsame : startsAlphanumeric (c :: others ++ '/' :: rest) =
          startsAlphanumeric (c :: others) := rfl
      rw [ensureStart, ensureStart, hsame]
      split <;> rfl

/-! ## The front of a text -/

/-- The part of a text before its first slash. -/
def front (text : List Char) : List Char :=
  text.takeWhile (· ≠ '/')

/-- The front of a text as it comes to the cut, if a slash stands behind it. Hyphens at its end
stay. -/
def frontName (text : List Char) : List Char :=
  ensureStart (collapseHyphens ((normalize (front text)).dropWhile isHyphen))

variable {text : List Char}

theorem exists_behind_front (h : '/' ∈ text) : ∃ rest, text = front text ++ '/' :: rest := by
  have hsplit := List.takeWhile_append_dropWhile (p := (· ≠ '/')) (l := text)
  cases hdrop : text.dropWhile (· ≠ '/') with
  | nil =>
      have hall := List.dropWhile_eq_nil_iff.mp hdrop '/' h
      exact absurd hall (by decide)
  | cons c rest =>
      have hc : c = '/' := by
        have hhead := List.head?_dropWhile_not (· ≠ '/') text
        rw [hdrop] at hhead
        simpa using hhead
      rw [hdrop, hc] at hsplit
      exact ⟨rest, hsplit.symm⟩

theorem slash_not_mem_front (text : List Char) : '/' ∉ front text := by
  intro h
  exact absurd (List.mem_takeWhile_imp h) (by decide)

theorem beforeCut_of_slash (h : '/' ∈ text) :
    ∃ behind, beforeCut text = frontName text ++ '/' :: behind := by
  obtain ⟨rest, htext⟩ := exists_behind_front h
  refine ⟨collapseHyphens (dropTrailingHyphens (normalize rest)), ?_⟩
  rw [frontName]
  conv => lhs; rw [htext]
  rw [beforeCut, trimHyphens, normalize_slash, dropWhile_isHyphen_append (by simp),
    dropTrailingHyphens_slash, collapseHyphens_slash, ensureStart_slash]

theorem mem_frontName {c : Char} (h : c ∈ frontName text) :
    c = filler ∨ c ∈ normalize (front text) :=
  (mem_ensureStart h).imp id fun h =>
    (List.dropWhile_sublist isHyphen).mem (mem_of_mem_collapseHyphens h)

theorem slash_mem_of_mem_normalize (h : '/' ∈ normalize text) : '/' ∈ text :=
  mem_of_mem_stripped (Unicode.mem_of_mem_lowercase h (by decide)) (by decide)

theorem slash_not_mem_frontName (text : List Char) : '/' ∉ frontName text := by
  intro h
  rcases mem_frontName h with hfiller | hnormal
  · exact absurd hfiller (by decide)
  · exact slash_not_mem_front text (slash_mem_of_mem_normalize hnormal)

theorem slash_not_mem_sanitizeChars (h : '/' ∉ text) : '/' ∉ sanitizeChars text := by
  intro hmem
  rcases mem_sanitizeChars hmem with hfiller | hnormal
  · exact absurd hfiller (by decide)
  · exact h (slash_mem_of_mem_normalize hnormal)

/-! ## Fronts of names -/

/-- A front that leaves room for the slash behind it is the front of the name as it is. -/
theorem sanitizeChars_of_short_front (h : '/' ∈ text)
    (hshort : (frontName text).length < maxLength) :
    ∃ behind, sanitizeChars text = frontName text ++ '/' :: behind := by
  obtain ⟨behind, hbefore⟩ := beforeCut_of_slash h
  obtain ⟨room, hroom⟩ : ∃ room, maxLength - (frontName text).length = room + 1 :=
    Nat.exists_eq_add_one.mpr (Nat.sub_pos_of_lt hshort)
  have hclamped : clamped text = frontName text ++ '/' :: behind.take room := by
    change (beforeCut text).take maxLength = _
    rw [hbefore, List.take_append, List.take_of_length_le (Nat.le_of_lt hshort), hroom,
      List.take_succ_cons]
  -- a hyphen is dropped and filler added behind the slash only
  rw [sanitizeChars_eq, hclamped, dropTrailingHyphens_slash, pad, List.append_assoc,
    List.cons_append]
  exact ⟨_, rfl⟩

/-- A front that fills the name leaves nothing of the slash and of what stands behind it. -/
theorem sanitizeChars_of_long_front (h : '/' ∈ text)
    (hlong : maxLength ≤ (frontName text).length) :
    sanitizeChars text = pad (dropTrailingHyphens ((frontName text).take maxLength)) := by
  obtain ⟨behind, hbefore⟩ := beforeCut_of_slash h
  have hclamped : clamped text = (frontName text).take maxLength := by
    change (beforeCut text).take maxLength = _
    rw [hbefore, List.take_append_of_le_length hlong]
  rw [sanitizeChars_eq, hclamped]

theorem slash_not_mem_of_long_front (h : '/' ∈ text)
    (hlong : maxLength ≤ (frontName text).length) : '/' ∉ sanitizeChars text := by
  rw [sanitizeChars_of_long_front h hlong]
  intro hmem
  rcases List.mem_append.mp hmem with hmem | hmem
  · have htaken := (dropTrailingHyphens_isPrefixOf _).sublist.mem hmem
    exact slash_not_mem_frontName text (List.mem_of_mem_take htaken)
  · exact absurd (List.mem_replicate.mp hmem).2 (by decide)

theorem isClean_of_mem_frontName {c : Char} (h : c ∈ frontName text) : IsClean c := by
  rcases mem_frontName h with rfl | h
  · exact isClean_filler
  · exact isClean_of_mem_normalize h

theorem isChain_frontName (text : List Char) : (frontName text).IsChain Apart :=
  isChain_ensureStart (isChain_collapseHyphens _)

theorem startsAlphanumeric_frontName (text : List Char) : StartsAlphanumeric (frontName text) :=
  startsAlphanumeric_ensureStart _

end ResourceName

/-! ## Containers -/

namespace Placement

open ResourceName

theorem clampContainer_of_short {chars : List Char} (h : ∀ c ∈ chars, Unicode.IsSettled c)
    (hlength : chars.length ≤ maxLength) : clampContainer chars = chars := by
  rw [clampContainer, Unicode.lowercase_of_isSettled h, List.take_of_length_le hlength]

theorem ofName_of_no_slash {chars : List Char} (h : '/' ∉ chars) :
    ofName (String.ofList chars) = ⟨String.ofList (clampContainer chars), ""⟩ := by
  have hnone : chars.dropWhile (· ≠ '/') = [] := by
    rw [List.dropWhile_eq_nil_iff]
    intro c hc
    simpa using fun hslash : c = '/' => h (hslash ▸ hc)
  rw [ofName]
  simp only [String.toList_ofList, hnone]

theorem ofName_of_slash {front rest : List Char} (h : '/' ∉ front) :
    ofName (String.ofList (front ++ '/' :: rest)) =
      ⟨String.ofList (clampContainer front), String.ofList (endWithSlash rest)⟩ := by
  have hfront : ∀ c ∈ front, decide (c ≠ '/') = true := by
    intro c hc
    simpa using fun hslash : c = '/' => h (hslash ▸ hc)
  have hdrop : (front ++ '/' :: rest).dropWhile (· ≠ '/') = '/' :: rest := by
    rw [List.dropWhile_append_of_pos hfront, List.dropWhile_cons_of_neg (by simp)]
  have htake : (front ++ '/' :: rest).takeWhile (· ≠ '/') = front := by
    rw [List.takeWhile_append_of_pos hfront, List.takeWhile_cons_of_neg (by simp), List.append_nil]
  rw [ofName]
  simp only [String.toList_ofList, hdrop, htake]

@[simp] theorem clampContainer_sanitizeChars (text : List Char) :
    clampContainer (sanitizeChars text) = sanitizeChars text :=
  clampContainer_of_short (fun _ hc => (isClean_of_mem_sanitizeChars hc).1)
    (length_sanitizeChars text).2

end Placement

namespace ResourceName

open Placement

/-- The container that a text is put into. -/
def containerOf (text : List Char) : List Char :=
  (ofName (sanitize (String.ofList text))).container.toList

/-- The container of a text is the front that leaves room for a slash, and else the whole name. -/
theorem containerOf_cases (text : List Char) :
    (containerOf text = sanitizeChars text ∧
        ('/' ∈ text → maxLength ≤ (frontName text).length)) ∨
      ('/' ∈ text ∧ (frontName text).length < maxLength ∧ containerOf text = frontName text) := by
  have hname : sanitize (String.ofList text) = String.ofList (sanitizeChars text) := by
    rw [sanitize, String.toList_ofList]
  rw [containerOf, hname]
  by_cases hslash : '/' ∈ text
  · rcases Nat.lt_or_ge (frontName text).length maxLength with hshort | hlong
    · obtain ⟨behind, hsplit⟩ := sanitizeChars_of_short_front hslash hshort
      refine .inr ⟨hslash, hshort, ?_⟩
      rw [hsplit, ofName_of_slash (slash_not_mem_frontName text), String.toList_ofList]
      exact clampContainer_of_short (fun _ hc => (isClean_of_mem_frontName hc).1)
        (Nat.le_of_lt hshort)
    · refine .inl ⟨?_, fun _ => hlong⟩
      rw [ofName_of_no_slash (slash_not_mem_of_long_front hslash hlong), String.toList_ofList,
        clampContainer_sanitizeChars]
  · refine .inl ⟨?_, fun h => absurd h hslash⟩
    rw [ofName_of_no_slash (slash_not_mem_sanitizeChars hslash), String.toList_ofList,
      clampContainer_sanitizeChars]

theorem containerOf_of_both {holds : List Char → Prop} {text : List Char}
    (hwhole : holds (sanitizeChars text)) (hfront : holds (frontName text)) :
    holds (containerOf text) := by
  rcases containerOf_cases text with ⟨heq, _⟩ | ⟨_, _, heq⟩
  · rwa [heq]
  · rwa [heq]

end ResourceName

end MediaMigration
