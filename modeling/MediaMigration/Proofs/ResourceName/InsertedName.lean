import MediaMigration.Proofs.ResourceName.Alignment

/-!
# Legal names inside of texts

A legal name that stands in a text comes through all steps up to the cut, whatever stands around it.
The text in front of it becomes a front of its own: parentheses vanish, hyphens at the start are
dropped and runs of them become one, while a hyphen at the end stays, and a filler may be put before
the rest. The length of this front says how much of the name is left by the cut. What the name
itself does to the front is to choose the forms of its capital sigmas.
-/

namespace MediaMigration

namespace ResourceName

open Unicode

/-! ## The front of a legal name -/

def startWords : List Char → List Char
  | [] => []
  | c :: rest => ensureStart (c :: rest)

/-- What a lower-cased text becomes if a name stands behind it. Hyphens at its end stay, and nothing
is put in front of a name alone. -/
def inFront (text : List Char) : List Char :=
  startWords (collapseHyphens (text.dropWhile isHyphen))

/-- How many characters a text takes up in a name in front of a legal name. -/
def lengthInFront (text : List Char) : Nat :=
  (inFront (normalize text)).length

theorem normalize_eq (text : List Char) :
    normalize text = lowercaseWithin [] (stripped text) [] :=
  lowercaseFrom_eq_lowercaseWithin [] (stripped text)

@[simp] theorem stripped_append (text more : List Char) :
    stripped (text ++ more) = stripped text ++ stripped more := by
  rw [stripped, List.filter_append, List.map_append]
  rfl

theorem lowercaseWithin_aligned (before text after otherAfter : List Char) :
    Aligned (lowercaseWithin before text after) (lowercaseWithin before text otherAfter) := by
  induction text generalizing before with
  | nil => exact .nil
  | cons c rest ih =>
      have hform := (KeepsApart.lowercaseBetween_alike (.refl c) before (rest ++ after) before
        (rest ++ otherAfter)).1
      exact hform.append (ih (c :: before))

theorem startWords_aligned {text other : List Char} (h : Aligned text other) :
    Aligned (startWords text) (startWords other) := by
  cases h with
  | nil => exact .nil
  | cons halike hrest => exact KeepsApart.ensureStart.aligned (.cons halike hrest)

theorem inFront_aligned {text other : List Char} (h : Aligned text other) :
    Aligned (inFront text) (inFront other) :=
  startWords_aligned (KeepsApart.collapseHyphens.aligned
    ((KeepsApart.dropWhile not_isHyphen_of_mem_variants).aligned h))

@[simp] theorem length_inFront (text after : List Char) :
    (inFront (lowercaseWithin [] (stripped text) after)).length = lengthInFront text := by
  rw [lengthInFront, normalize_eq]
  exact (inFront_aligned (lowercaseWithin_aligned [] (stripped text) after [])).length_eq

theorem ensureStart_append {behind : List Char} (h : StartsAlphanumeric behind)
    (front : List Char) : ensureStart (front ++ behind) = startWords front ++ behind := by
  cases front with
  | nil => exact if_pos (startsAlphanumeric_iff.mpr h)
  | cons c rest =>
      have hsame : startsAlphanumeric (c :: rest ++ behind) = startsAlphanumeric (c :: rest) := rfl
      rw [startWords, ensureStart, ensureStart, hsame]
      split <;> rfl

variable {name : String}

/-- A legal name comes to the cut as it is, behind the front that the text in front of it makes. -/
theorem beforeCut_around (h : IsLegal name) (front behind : List Char) :
    ∃ rest, beforeCut (front ++ (name.toList ++ behind)) =
      inFront (lowercaseWithin [] (stripped front) (name.toList ++ stripped behind)) ++
        (name.toList ++ rest) := by
  obtain ⟨first, others, hname, hfirst⟩ := h.starts_alphanumeric
  have hstarts : StartsAlphanumeric name.toList := ⟨first, others, hname, hfirst⟩
  have hhead : ∀ rest : List Char, (name.toList ++ rest).head? ≠ some '-' := by
    intro rest hhyphen
    rw [hname, List.cons_append, List.head?_cons] at hhyphen
    exact ne_mark_of_alphanumeric hfirst '-' (by decide) (Option.some.inj hhyphen)
  have hsettled : ∀ c ∈ name.toList, IsSettled c := fun c hc =>
    isSettled_of_mem_lowercase (by rwa [h.lower_case])
  let lead := lowercaseWithin [] (stripped front) (name.toList ++ stripped behind)
  obtain ⟨tail, htail⟩ : ∃ tail, normalize (front ++ (name.toList ++ behind)) =
      lead ++ (name.toList ++ tail) := by
    refine ⟨lowercaseWithin (name.toList.reverse ++ (stripped front).reverse) (stripped behind) [],
      ?_⟩
    rw [normalize_eq, stripped_append, stripped_append, stripped_of_isLegal h,
      lowercaseWithin_append, lowercaseWithin_append, lowercaseWithin_of_isSettled hsettled]
    simp only [List.append_nil, lead]
  have hlast : (lead.dropWhile isHyphen ++ name.toList).getLast? ≠ some '-' := by
    rw [List.getLast?_append_of_ne_nil _ (by simp [hname])]
    exact h.no_hyphen_at_end
  have htrim : trimHyphens (lead ++ (name.toList ++ tail)) =
      lead.dropWhile isHyphen ++ (name.toList ++ dropTrailingHyphens tail) := by
    rw [trimHyphens, dropWhile_isHyphen_append (hhead tail), ← List.append_assoc,
      dropTrailingHyphens_append hlast, List.append_assoc]
  have hcollapse := collapseHyphens_of_isChain (isChain_apart_iff.mpr h.no_double_hyphen)
  refine ⟨collapseHyphens (dropTrailingHyphens tail), ?_⟩
  rw [beforeCut, htail, htrim, collapseHyphens_append (.inr (hhead _)),
    collapseHyphens_append (.inl h.no_hyphen_at_end), hcollapse,
    ensureStart_append (hstarts.append _)]
  rfl

/-! ## What the cut leaves of a legal name -/

/-- How many characters of a legal name the cut leaves behind a text. -/
def roomBehind (front : List Char) : Nat :=
  maxLength - lengthInFront front

/-- The cut takes the front, and of the legal name behind it what there is room for. -/
theorem take_beforeCut_around (h : IsLegal name) (front behind : List Char) :
    ∃ rest, (beforeCut (front ++ (name.toList ++ behind))).take maxLength =
      (inFront (lowercaseWithin [] (stripped front) (name.toList ++ stripped behind))).take
        maxLength ++ (name.toList ++ rest).take (roomBehind front) := by
  obtain ⟨rest, hbefore⟩ := beforeCut_around h front behind
  exact ⟨rest, by rw [hbefore, List.take_append, length_inFront, roomBehind]⟩

/-- Names of aligned texts are the same exactly if the texts are the same up to the cut. -/
theorem sanitizeChars_eq_iff {text other : List Char} (h : Aligned text other) :
    sanitizeChars text = sanitizeChars other ↔
      (beforeCut text).take maxLength = (beforeCut other).take maxLength := by
  constructor
  · exact (KeepsApart.pad.comp KeepsApart.dropTrailingHyphens).injective
      (List.forall₂_take maxLength (KeepsApart.beforeCut.aligned h))
  · exact congrArg fun clamped => pad (dropTrailingHyphens clamped)

variable {other : String} {front behind otherBehind : List Char}

/-- Legal names that differ in what there is room for make different names. -/
theorem sanitizeChars_ne_of_room (h : IsLegal name) (hother : IsLegal other)
    (haligned : Aligned name.toList other.toList) (hbehind : Aligned behind otherBehind)
    (hdiffer : name.toList.take (roomBehind front) ≠ other.toList.take (roomBehind front)) :
    sanitizeChars (front ++ (name.toList ++ behind)) ≠
      sanitizeChars (front ++ (other.toList ++ otherBehind)) := by
  have htexts := (Aligned.refl front).append (haligned.append hbehind)
  obtain ⟨rest, htake⟩ := take_beforeCut_around h front behind
  obtain ⟨otherRest, hotherTake⟩ := take_beforeCut_around hother front otherBehind
  rw [Ne, sanitizeChars_eq_iff htexts, htake, hotherTake]
  intro hsame
  have hfronts : ∀ after otherAfter : List Char,
      ((inFront (lowercaseWithin [] (stripped front) after)).take maxLength).length =
        ((inFront (lowercaseWithin [] (stripped front) otherAfter)).take maxLength).length := by
    intro after otherAfter
    rw [List.length_take, List.length_take, length_inFront, length_inFront]
  have hnames := (List.append_inj hsame (hfronts _ _)).2
  rw [List.take_append, List.take_append] at hnames
  refine hdiffer (List.append_inj hnames ?_).1
  rw [List.length_take, List.length_take, haligned.length_eq]

/-- Legal names that do not differ in what there is room for make the same name, if they make the
same front. -/
theorem sanitizeChars_eq_of_room (h : IsLegal name) (hother : IsLegal other)
    (hroom : roomBehind front ≤ name.toList.length)
    (hotherRoom : roomBehind front ≤ other.toList.length)
    (hsame : name.toList.take (roomBehind front) = other.toList.take (roomBehind front))
    (hfront : lowercaseWithin [] (stripped front) (name.toList ++ stripped behind) =
      lowercaseWithin [] (stripped front) (other.toList ++ stripped otherBehind)) :
    sanitizeChars (front ++ (name.toList ++ behind)) =
      sanitizeChars (front ++ (other.toList ++ otherBehind)) := by
  obtain ⟨rest, htake⟩ := take_beforeCut_around h front behind
  obtain ⟨otherRest, hotherTake⟩ := take_beforeCut_around hother front otherBehind
  have hcut : (beforeCut (front ++ (name.toList ++ behind))).take maxLength =
      (beforeCut (front ++ (other.toList ++ otherBehind))).take maxLength := by
    rw [htake, hotherTake, hfront, List.take_append_of_le_length hroom,
      List.take_append_of_le_length hotherRoom, hsame]
  exact congrArg (fun clamped => pad (dropTrailingHyphens clamped)) hcut

end ResourceName

end MediaMigration
