import MediaMigration.FileTree.Path

/-!
# The moves of a path

Of the segments of a path only names and `..` move a look-up. Joining paths puts the moves of
one behind those of the other, and each path above a path has the first so many of its moves.
-/

namespace MediaMigration

namespace Text

theorem splitAt_append_separator (separator : Char) (first second : List Char) :
    splitAt separator (first ++ separator :: second) =
      splitAt separator first ++ splitAt separator second := by
  induction first with
  | nil => simp [splitAt]
  | cons c rest ih =>
      rw [List.cons_append, splitAt, splitAt]
      by_cases hc : c = separator
      · rw [if_pos hc, if_pos hc, ih, List.cons_append]
      · rw [if_neg hc, if_neg hc, ih]
        cases hs : splitAt separator rest with
        | nil => exact absurd hs (splitAt_ne_nil separator rest)
        | cons part parts => rfl

theorem splitAt_of_not_mem {separator : Char} {text : List Char} (h : separator ∉ text) :
    splitAt separator text = [text] := by
  induction text with
  | nil => rfl
  | cons c rest ih =>
      rw [List.mem_cons, not_or] at h
      unfold splitAt
      rw [if_neg (Ne.symm h.1), ih h.2]

theorem mem_of_mem_splitAt {separator c : Char} {text part : List Char}
    (hpart : part ∈ splitAt separator text) (hc : c ∈ part) : c ∈ text := by
  induction text generalizing part with
  | nil =>
      obtain rfl : part = [] := by simpa [splitAt] using hpart
      exact absurd hc (by simp)
  | cons first rest ih =>
      unfold splitAt at hpart
      split at hpart
      · rcases List.mem_cons.mp hpart with rfl | hrest
        · exact absurd hc (by simp)
        · exact List.mem_cons_of_mem _ (ih hrest hc)
      · cases hs : splitAt separator rest with
        | nil => exact absurd hs (splitAt_ne_nil separator rest)
        | cons front parts =>
            rw [hs] at ih
            simp only [hs] at hpart
            rcases List.mem_cons.mp hpart with rfl | hrest
            · rcases List.mem_cons.mp hc with rfl | hfront
              · exact List.mem_cons_self
              · exact List.mem_cons_of_mem _ (ih (by simp) hfront)
            · exact List.mem_cons_of_mem _ (ih (List.mem_cons_of_mem _ hrest) hc)

end Text

namespace FilePath

/-! ## Segments -/

@[simp] theorem segments_ne_nil (path : FilePath) : path.segments ≠ [] := by
  simp [segments]

@[simp] theorem segments_append_slash (first second : String) :
    segments ⟨first ++ "/" ++ second⟩ = segments ⟨first⟩ ++ segments ⟨second⟩ := by
  have hchars : (first ++ "/" ++ second).toList = first.toList ++ '/' :: second.toList := by
    simp
  simp only [segments, hchars]
  rw [Text.splitAt_append_separator, List.map_append]

theorem segments_of_no_slash {text : String} (h : '/' ∉ text.toList) :
    segments ⟨text⟩ = [text] := by
  simp only [segments]
  rw [Text.splitAt_of_not_mem h, List.map_singleton, String.ofList_toList]

theorem no_slash_of_mem_segments {path : FilePath} {segment : String}
    (h : segment ∈ path.segments) : '/' ∉ segment.toList := by
  obtain ⟨part, hpart, rfl⟩ := List.mem_map.mp h
  rw [String.toList_ofList]
  exact Text.not_mem_of_mem_splitAt hpart

theorem mem_text_of_mem_segments {path : FilePath} {segment : String}
    (h : segment ∈ path.segments) {c : Char} (hc : c ∈ segment.toList) :
    c ∈ path.text.toList := by
  obtain ⟨part, hpart, rfl⟩ := List.mem_map.mp h
  rw [String.toList_ofList] at hc
  exact Text.mem_of_mem_splitAt hpart hc

theorem segments_joinSegments {segments : List String} (hne : segments ≠ [])
    (h : ∀ segment ∈ segments, '/' ∉ segment.toList) :
    FilePath.segments ⟨joinSegments segments⟩ = segments := by
  unfold joinSegments
  induction segments with
  | nil => exact absurd rfl hne
  | cons first rest ih =>
      have hfirst := segments_of_no_slash (h first (by simp))
      cases rest with
      | nil => rw [String.intercalate_singleton, hfirst]
      | cons next others =>
          have hrest := ih (by simp) fun segment hmem => h segment (List.mem_cons_of_mem _ hmem)
          rw [String.intercalate_cons_cons, segments_append_slash, hfirst, hrest]
          rfl

theorem text_ne_empty {path : FilePath} (h : path.steps ≠ []) : path.text ≠ "" := by
  intro hempty
  apply h
  simp [steps, segments, hempty, Text.splitAt]

/-! ## Moves -/

/-- The segments that lead somewhere else: names and `..`. -/
def moves (path : FilePath) : List String :=
  path.segments.filter fun segment => !isSilent segment

theorem moves_eq_filter_steps (path : FilePath) :
    path.moves = path.steps.filter fun step => step != "." := by
  rw [moves, steps, List.filter_filter]
  refine List.filter_congr fun segment _ => ?_
  simp only [isSilent, bne, Bool.not_or, Bool.and_comm]

theorem isAbsolute_append {first : String} (hne : first ≠ "") (second : String) :
    isAbsolute ⟨first ++ second⟩ = isAbsolute ⟨first⟩ := by
  have hchars : first.toList ≠ [] := by
    intro hnil
    exact hne (String.toList_eq_nil_iff.mp hnil)
  obtain ⟨c, rest, hcons⟩ := List.exists_cons_of_ne_nil hchars
  simp [isAbsolute, hcons]

theorem text_join {base next : FilePath} (hnext : next.isAbsolute = false) (hbase : base.text ≠ "")
    (hslash : base.endsWithSlash = false) :
    (base.join next).text = base.text ++ "/" ++ next.text := by
  rw [join, hnext, hslash, if_neg Bool.false_ne_true, if_neg hbase, if_neg Bool.false_ne_true]

theorem isAbsolute_join {base next : FilePath} (hnext : next.isAbsolute = false) :
    (base.join next).isAbsolute = base.isAbsolute := by
  unfold join
  rw [hnext, if_neg Bool.false_ne_true]
  by_cases hempty : base.text = ""
  · rw [if_pos hempty, hnext]
    simp [isAbsolute, hempty]
  · rw [if_neg hempty]
    split
    · exact isAbsolute_append hempty next.text
    · rw [String.append_assoc]
      exact isAbsolute_append hempty ("/" ++ next.text)

theorem eq_append_slash {path : FilePath} (h : path.endsWithSlash = true) :
    ∃ front : String, path.text = front ++ "/" := by
  have hlast : path.text.toList.getLast? = some '/' := by simpa [endsWithSlash] using h
  obtain ⟨front, hfront⟩ := List.getLast?_eq_some_iff.mp hlast
  refine ⟨String.ofList front, ?_⟩
  apply String.toList_injective
  rw [hfront]
  simp

/-- A look-up goes through the steps of both paths. -/
theorem steps_join {base next : FilePath} (hnext : next.isAbsolute = false) :
    (base.join next).steps = base.steps ++ next.steps := by
  unfold join
  rw [hnext, if_neg Bool.false_ne_true]
  by_cases hempty : base.text = ""
  · have hnone : base.steps = [] := by
      simp [steps, segments, hempty, Text.splitAt]
    rw [if_pos hempty, hnone, List.nil_append]
  · rw [if_neg hempty]
    split
    · next hslash =>
        -- the slash at the end is the one between the two
        obtain ⟨front, hfront⟩ := eq_append_slash hslash
        have hbase : base.steps = steps ⟨front⟩ := by
          have hsegments : base.segments = segments ⟨front⟩ ++ segments ⟨""⟩ := by
            rw [← segments_append_slash, String.append_empty, ← hfront]
          have hempty : segments ⟨""⟩ = [""] := rfl
          rw [steps, hsegments, hempty, List.filter_append]
          simp [steps]
        rw [hbase]
        simp only [hfront, steps, segments_append_slash, List.filter_append]
    · simp only [steps, segments_append_slash, List.filter_append]

theorem endsWithSlash_join {base next : FilePath} (hnext : next.isAbsolute = false)
    (hne : next.text ≠ "") : (base.join next).endsWithSlash = next.endsWithSlash := by
  have hchars : next.text.toList ≠ [] := fun hnil => hne (String.toList_eq_nil_iff.mp hnil)
  have happend : ∀ front : String,
      endsWithSlash ⟨front ++ next.text⟩ = next.endsWithSlash := by
    intro front
    have hlast := List.getLast?_eq_some_getLast hchars
    simp [endsWithSlash, List.getLast?_append, hlast]
  unfold join
  rw [hnext, if_neg Bool.false_ne_true]
  split
  · rfl
  · split
    · exact happend base.text
    · exact happend (base.text ++ "/")

theorem moves_join {base next : FilePath} (hnext : next.isAbsolute = false) :
    (base.join next).moves = base.moves ++ next.moves := by
  rw [moves_eq_filter_steps, moves_eq_filter_steps, moves_eq_filter_steps, steps_join hnext,
    List.filter_append]

/-! ## The paths above a path -/

theorem filter_dropSilentEnd (segments : List String) :
    (dropSilentEnd segments).filter (fun segment => !isSilent segment) =
      segments.filter fun segment => !isSilent segment := by
  have hdrop : ∀ reversed : List String,
      (reversed.dropWhile isSilent).filter (fun segment => !isSilent segment) =
        reversed.filter fun segment => !isSilent segment := by
    intro reversed
    induction reversed with
    | nil => rfl
    | cons segment rest ih =>
        cases hsilent : isSilent segment with
        | true => simp [hsilent, ih]
        | false => simp [hsilent]
  rw [dropSilentEnd, List.filter_reverse, hdrop, ← List.filter_reverse, List.reverse_reverse]

theorem isPrefix_dropSilentEnd (segments : List String) : dropSilentEnd segments <+: segments := by
  have hsuffix : segments.reverse.dropWhile isSilent <:+ segments.reverse :=
    List.dropWhile_suffix isSilent
  have hfront := List.reverse_prefix.mpr hsuffix
  rw [List.reverse_reverse] at hfront
  exact hfront

theorem dropSilentEnd_concat {segments front : List String} {last : String}
    (h : dropSilentEnd segments = front ++ [last]) : isSilent last = false := by
  have hhead : (segments.reverse.dropWhile isSilent).head? = some last := by
    have hreverse := congrArg List.reverse h
    rw [dropSilentEnd, List.reverse_reverse, List.reverse_append] at hreverse
    rw [hreverse]
    rfl
  cases hsilent : isSilent last with
  | false => rfl
  | true =>
      have hnot := List.head?_dropWhile_not isSilent segments.reverse
      rw [hhead] at hnot
      simp [hsilent] at hnot

theorem aboveLast?_eq_some {segments above : List String} (h : aboveLast? segments = some above) :
    above.filter (fun segment => !isSilent segment) =
        (segments.filter fun segment => !isSilent segment).dropLast ∧
      above <+: segments := by
  unfold aboveLast? at h
  cases hdropped : dropSilentEnd segments with
  | nil => simp [hdropped] at h
  | cons first rest =>
      rw [hdropped] at h
      simp only [Option.some.injEq] at h
      subst h
      have hconcat := List.dropLast_concat_getLast (List.cons_ne_nil first rest)
      have hlast : isSilent ((first :: rest).getLast (List.cons_ne_nil first rest)) = false :=
        dropSilentEnd_concat (hdropped.trans hconcat.symm)
      refine ⟨?_, ?_⟩
      · have hsegments := filter_dropSilentEnd segments
        rw [hdropped, ← hconcat, List.filter_append] at hsegments
        rw [filter_dropSilentEnd, ← hsegments]
        simp [hlast]
      · have hfront := isPrefix_dropSilentEnd segments
        rw [hdropped] at hfront
        exact (isPrefix_dropSilentEnd _).trans ((List.dropLast_prefix _).trans hfront)

theorem aboveLast?_eq_none {segments : List String} (h : aboveLast? segments = none) :
    segments.filter (fun segment => !isSilent segment) = [] := by
  unfold aboveLast? at h
  cases hdropped : dropSilentEnd segments with
  | nil => rw [← filter_dropSilentEnd, hdropped]; rfl
  | cons first rest => simp [hdropped] at h

@[simp] theorem steps_append_slash (first second : String) :
    steps ⟨first ++ "/" ++ second⟩ = steps ⟨first⟩ ++ steps ⟨second⟩ := by
  rw [steps, segments_append_slash, List.filter_append]
  rfl

@[simp] theorem moves_append_slash (first second : String) :
    moves ⟨first ++ "/" ++ second⟩ = moves ⟨first⟩ ++ moves ⟨second⟩ := by
  rw [moves, segments_append_slash, List.filter_append]
  rfl

theorem moves_joinSegments {segments : List String}
    (h : ∀ segment ∈ segments, '/' ∉ segment.toList) :
    moves ⟨joinSegments segments⟩ = segments.filter fun segment => !isSilent segment := by
  cases segments with
  | nil => rfl
  | cons first rest => rw [moves, segments_joinSegments (List.cons_ne_nil first rest) h]

theorem segments_of_isAbsolute {path : FilePath} (h : path.isAbsolute = true) :
    ∃ rest, path.segments = "" :: rest := by
  have hhead : path.text.toList.head? = some '/' := by simpa [isAbsolute] using h
  obtain ⟨rest, hrest⟩ := List.head?_eq_some_iff.mp hhead
  refine ⟨(Text.splitAt '/' rest).map String.ofList, ?_⟩
  rw [segments, hrest, Text.splitAt, if_pos rfl]
  rfl

theorem segments_of_not_isAbsolute {path : FilePath} (h : path.isAbsolute = false)
    (hne : path.text ≠ "") : ∃ first rest, path.segments = first :: rest ∧ first ≠ "" := by
  cases hchars : path.text.toList with
  | nil => exact absurd (String.toList_eq_nil_iff.mp hchars) hne
  | cons c rest =>
      have hc : c ≠ '/' := by
        rintro rfl
        simp [isAbsolute, hchars] at h
      cases hs : Text.splitAt '/' rest with
      | nil => exact absurd hs (Text.splitAt_ne_nil '/' rest)
      | cons part parts =>
          refine ⟨String.ofList (c :: part), parts.map String.ofList, ?_, ?_⟩
          · rw [segments, hchars, Text.splitAt, if_neg hc, hs]
            rfl
          · intro hempty
            have hnil := congrArg String.toList hempty
            simp at hnil

theorem isAbsolute_joinSegments {first : String} {rest : List String} (hne : first ≠ "")
    (hclean : '/' ∉ first.toList) : isAbsolute ⟨joinSegments (first :: rest)⟩ = false := by
  have hfirst : isAbsolute ⟨first⟩ = false := by
    cases hchars : first.toList with
    | nil => simp [isAbsolute, hchars]
    | cons c others =>
        rw [hchars, List.mem_cons, not_or] at hclean
        simp [isAbsolute, hchars, Ne.symm hclean.1]
  unfold joinSegments
  cases rest with
  | nil => rw [String.intercalate_singleton, hfirst]
  | cons next others =>
      rw [String.intercalate_cons_cons, String.append_assoc, isAbsolute_append hne, hfirst]

/-- The segments that are left above the last one, written as a path again. -/
theorem moves_aboveLast? {segments kept : List String} (h : aboveLast? segments = some kept)
    (hclean : ∀ segment ∈ segments, '/' ∉ segment.toList) :
    moves ⟨joinSegments kept⟩ = (segments.filter fun segment => !isSilent segment).dropLast := by
  obtain ⟨hmoves, hfront⟩ := aboveLast?_eq_some h
  rw [moves_joinSegments fun segment hmem => hclean segment (hfront.subset hmem), hmoves]

theorem isAbsolute_aboveLast? {path : FilePath} {kept : List String}
    (h : aboveLast? path.segments = some kept) (hrelative : path.isAbsolute = false) :
    isAbsolute ⟨joinSegments kept⟩ = false := by
  obtain ⟨_, more, hmore⟩ := aboveLast?_eq_some h
  cases kept with
  | nil => rfl
  | cons first rest =>
      rw [List.cons_append] at hmore
      have hfirst : first ∈ path.segments := by
        rw [← hmore]
        exact List.mem_cons_self
      refine isAbsolute_joinSegments ?_ (no_slash_of_mem_segments hfirst)
      rintro rfl
      -- only the empty path starts with an empty segment, and nothing is above it
      by_cases htext : path.text = ""
      · have hsegments : path.segments = [""] := by simp [segments, htext, Text.splitAt]
        have hnone : aboveLast? path.segments = none := by
          rw [hsegments]
          rfl
        rw [hnone] at h
        exact absurd h (by simp)
      · obtain ⟨other, others, hsegments, hne⟩ := segments_of_not_isAbsolute hrelative htext
        rw [hsegments] at hmore
        exact hne (List.cons.inj hmore).1.symm

inductive StandsAbove (path : FilePath) : FilePath → Prop where
  | absolute {rest kept : List String} (absolute : path.isAbsolute = true)
      (segments : path.segments = "" :: rest) (above : aboveLast? rest = some kept) :
      StandsAbove path ⟨"" ++ "/" ++ joinSegments kept⟩
  | nothing {rest : List String} (relative : path.isAbsolute = false)
      (segments : path.segments = "." :: rest) (above : aboveLast? rest = none) :
      StandsAbove path ⟨""⟩
  | here {rest : List String} (relative : path.isAbsolute = false)
      (segments : path.segments = "." :: rest) (above : aboveLast? rest = some []) :
      StandsAbove path ⟨"."⟩
  | behindHere {rest kept : List String} (relative : path.isAbsolute = false)
      (segments : path.segments = "." :: rest) (above : aboveLast? rest = some kept)
      (not_empty : kept ≠ []) : StandsAbove path ⟨"." ++ "/" ++ joinSegments kept⟩
  | relative {kept : List String} (relative : path.isAbsolute = false)
      (above : aboveLast? path.segments = some kept) : StandsAbove path ⟨joinSegments kept⟩

theorem segments_eq_of_isAbsolute {path : FilePath} (h : path.isAbsolute = true) {first : String}
    {rest : List String} (hsegments : path.segments = first :: rest) : first = "" := by
  obtain ⟨_, hempty⟩ := segments_of_isAbsolute h
  rw [hsegments] at hempty
  exact (List.cons.inj hempty).1

theorem standsAbove_of_parent? {path above : FilePath} (h : path.parent? = some above) :
    StandsAbove path above := by
  unfold parent? at h
  split at h
  · next first rest habsolute hsegments =>
      obtain ⟨kept, hkept, rfl⟩ := Option.map_eq_some_iff.mp h
      obtain rfl := segments_eq_of_isAbsolute habsolute hsegments
      rw [← String.empty_append (s := "/")]
      exact .absolute habsolute hsegments hkept
  · next rest hrelative hsegments =>
      split at h
      · next hnone =>
          obtain rfl := Option.some.inj h
          exact .nothing hrelative hsegments hnone
      · next hempty =>
          obtain rfl := Option.some.inj h
          exact .here hrelative hsegments hempty
      · next kept hne hkept =>
          obtain rfl := Option.some.inj h
          have hslash : "./" = "." ++ "/" := rfl
          rw [hslash]
          exact .behindHere hrelative hsegments hkept hne
  · next hnotAbsolute _ =>
      obtain ⟨kept, hkept, rfl⟩ := Option.map_eq_some_iff.mp h
      have hrelative : path.isAbsolute = false := by
        rw [Bool.eq_false_iff]
        intro habsolute
        obtain ⟨rest, hsegments⟩ := segments_of_isAbsolute habsolute
        exact hnotAbsolute _ _ habsolute hsegments
      exact .relative hrelative hkept

theorem StandsAbove.moves_eq {path above : FilePath} (h : StandsAbove path above) :
    above.moves = path.moves.dropLast := by
  have hclean : ∀ segment ∈ path.segments, '/' ∉ segment.toList :=
    fun segment hmem => no_slash_of_mem_segments hmem
  -- a first segment that is silent is no move
  have hpath : ∀ {first : String} {rest : List String}, isSilent first = true →
      path.segments = first :: rest → path.moves = rest.filter fun segment => !isSilent segment := by
    intro first rest hsilent hsegments
    rw [moves, hsegments, List.filter_cons_of_neg (by simp [hsilent])]
  -- nor is one that is put in front again
  have hfront : ∀ {first : String} {rest kept : List String}, isSilent first = true →
      moves ⟨first⟩ = [] → path.segments = first :: rest → aboveLast? rest = some kept →
      moves ⟨first ++ "/" ++ joinSegments kept⟩ = path.moves.dropLast := by
    intro first rest kept hsilent hnone hsegments habove
    rw [hsegments] at hclean
    rw [moves_append_slash, hnone, List.nil_append, hpath hsilent hsegments,
      moves_aboveLast? habove (List.forall_mem_cons.mp hclean).2]
  cases h with
  | absolute _ hsegments habove => exact hfront (by decide) rfl hsegments habove
  | nothing _ hsegments habove =>
      rw [hpath (by decide) hsegments, aboveLast?_eq_none habove]
      rfl
  | here _ hsegments habove =>
      rw [hpath (by decide) hsegments, ← (aboveLast?_eq_some habove).1]
      rfl
  | behindHere _ hsegments habove => exact hfront (by decide) rfl hsegments habove
  | relative _ habove => exact moves_aboveLast? habove hclean

theorem StandsAbove.isAbsolute_eq {path above : FilePath} (h : StandsAbove path above) :
    above.isAbsolute = path.isAbsolute := by
  cases h with
  | absolute habsolute =>
      rw [isAbsolute_append (by decide), habsolute]
      rfl
  | nothing hrelative => exact hrelative.symm
  | here hrelative => exact hrelative.symm
  | behindHere hrelative =>
      rw [isAbsolute_append (by decide), hrelative]
      rfl
  | relative hrelative habove =>
      exact (isAbsolute_aboveLast? habove hrelative).trans hrelative.symm

/-- The path above a path starts from the same directory and has the last move less. -/
theorem parent?_eq_some {path above : FilePath} (h : path.parent? = some above) :
    above.moves = path.moves.dropLast ∧ above.isAbsolute = path.isAbsolute :=
  ⟨(standsAbove_of_parent? h).moves_eq, (standsAbove_of_parent? h).isAbsolute_eq⟩

/-- A path that lies above a path or is the path itself: the first so many of its moves lead
there. -/
theorem moves_of_mem_ancestors {path above : FilePath} (h : above ∈ path.ancestors) :
    above.moves <+: path.moves ∧ above.isAbsolute = path.isAbsolute := by
  have hwithin : ∀ (fuel : Nat) (path : FilePath), above ∈ ancestorsWithin fuel path →
      above.moves <+: path.moves ∧ above.isAbsolute = path.isAbsolute := by
    intro fuel
    induction fuel with
    | zero =>
        intro path hmem
        rw [ancestorsWithin, List.mem_singleton] at hmem
        rw [hmem]
        exact ⟨List.prefix_refl _, rfl⟩
    | succ fuel ih =>
        intro path hmem
        unfold ancestorsWithin at hmem
        split at hmem
        · rw [List.mem_singleton] at hmem
          rw [hmem]
          exact ⟨List.prefix_refl _, rfl⟩
        · next parent hparent =>
            obtain ⟨hmoves, habsolute⟩ := parent?_eq_some hparent
            rcases List.mem_cons.mp hmem with rfl | hmem
            · exact ⟨List.prefix_refl _, rfl⟩
            · obtain ⟨hfront, hsame⟩ := ih parent hmem
              rw [hmoves] at hfront
              exact ⟨hfront.trans (List.dropLast_prefix _), hsame.trans habsolute⟩
  exact hwithin _ path h

/-! ## Names put one below the other -/

section Names

variable {names : List String}

theorem segments_joinNames (hne : names ≠ [])
    (hclean : ∀ name ∈ names, '/' ∉ name.toList) :
    segments ⟨joinNames names⟩ = names :=
  segments_joinSegments hne hclean

theorem steps_joinNames (hne : names ≠ [])
    (hnames : ∀ name ∈ names, name ≠ "" ∧ '/' ∉ name.toList) :
    steps ⟨joinNames names⟩ = names := by
  rw [steps, segments_joinNames hne fun name hmem => (hnames name hmem).2]
  rw [List.filter_eq_self]
  intro name hmem
  simpa using (hnames name hmem).1

theorem moves_joinNames (hne : names ≠ []) (hnames : ∀ name ∈ names, name ≠ "" ∧ '/' ∉ name.toList)
    (hhere : "." ∉ names) : moves ⟨joinNames names⟩ = names := by
  rw [moves_eq_filter_steps, steps_joinNames hne hnames, List.filter_eq_self]
  intro name hmem
  have hname : name ≠ "." := fun heq => hhere (heq ▸ hmem)
  simpa using hname

theorem moves_joinNames_moves {path : FilePath} (hne : path.moves ≠ []) :
    moves ⟨joinNames path.moves⟩ = path.moves := by
  refine moves_joinNames hne (fun name hmem => ⟨?_, ?_⟩) fun hmem => ?_
  · rintro rfl
    exact absurd (List.mem_filter.mp hmem).2 (by decide)
  · exact no_slash_of_mem_segments (List.mem_filter.mp hmem).1
  · exact absurd (List.mem_filter.mp hmem).2 (by decide)

theorem isAbsolute_joinNames (hne : names ≠ [])
    (hnames : ∀ name ∈ names, name ≠ "" ∧ '/' ∉ name.toList) :
    isAbsolute ⟨joinNames names⟩ = false := by
  obtain ⟨first, rest, rfl⟩ := List.exists_cons_of_ne_nil hne
  have hfirst := hnames first (by simp)
  exact isAbsolute_joinSegments hfirst.1 hfirst.2

theorem endsWithSlash_joinNames (hne : names ≠ [])
    (hnames : ∀ name ∈ names, name ≠ "" ∧ '/' ∉ name.toList) :
    endsWithSlash ⟨joinNames names⟩ = false := by
  cases hslash : endsWithSlash ⟨joinNames names⟩ with
  | false => rfl
  | true =>
      obtain ⟨front, hfront⟩ := eq_append_slash hslash
      have hsegments := segments_joinNames hne fun name hmem => (hnames name hmem).2
      have hempty : "" ∈ names := by
        have htext : joinNames names = front ++ "/" ++ "" := by
          rw [String.append_empty]
          exact hfront
        rw [← hsegments, htext, segments_append_slash]
        exact List.mem_append_right _ (by decide)
      exact absurd rfl (hnames "" hempty).1

theorem join_name {name : String} (hname : name ≠ "" ∧ '/' ∉ name.toList) (dir : FilePath) :
    (dir.join ⟨name⟩).isAbsolute = dir.isAbsolute ∧
      (dir.join ⟨name⟩).steps = dir.steps ++ [name] ∧
      (dir.join ⟨name⟩).endsWithSlash = false := by
  have htext : joinNames [name] = name := by simp [joinNames]
  have hclean : ∀ other ∈ [name], other ≠ "" ∧ '/' ∉ other.toList := by
    intro other hother
    rw [List.mem_singleton] at hother
    rw [hother]
    exact hname
  have hrelative := isAbsolute_joinNames (List.cons_ne_nil name []) hclean
  have hsteps := steps_joinNames (List.cons_ne_nil name []) hclean
  have hslash := endsWithSlash_joinNames (List.cons_ne_nil name []) hclean
  rw [htext] at hrelative hsteps hslash
  refine ⟨isAbsolute_join hrelative, ?_, ?_⟩
  · rw [steps_join hrelative, hsteps]
  · rw [endsWithSlash_join hrelative hname.1, hslash]

/-- Going down by names makes a path that ends in them. -/
theorem below_names (dir : FilePath) (hne : names ≠ [])
    (hnames : ∀ name ∈ names, name ≠ "" ∧ '/' ∉ name.toList) :
    (dir.below names).isAbsolute = dir.isAbsolute ∧
      (dir.below names).steps = dir.steps ++ names ∧
      (dir.below names).endsWithSlash = false := by
  induction names generalizing dir with
  | nil => exact absurd rfl hne
  | cons name rest ih =>
      have hfirst := join_name (hnames name (by simp)) dir
      have hbelow : dir.below (name :: rest) = (dir.join ⟨name⟩).below rest := rfl
      rw [hbelow]
      by_cases hlast : rest = []
      · rw [hlast]
        exact hfirst
      · have hrest :=
          ih (dir.join ⟨name⟩) hlast fun other hother => hnames other (List.mem_cons_of_mem _ hother)
        rw [hrest.1, hrest.2.1, hfirst.1, hfirst.2.1, List.append_assoc, List.singleton_append]
        exact ⟨rfl, rfl, hrest.2.2⟩

end Names

end FilePath

end MediaMigration
