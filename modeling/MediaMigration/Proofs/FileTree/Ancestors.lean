import MediaMigration.Proofs.FileTree.Path

/-!
# The paths above a path

A path above another one is written with the first so many of its segments, so it takes no more
bytes, and neither does a path where segments that say nothing are left out. It is written up to
a segment that says something, unless it says nothing but where the path starts.
-/

namespace MediaMigration

namespace FilePath

/-! ## Bytes of a path -/

def weight : List String → Nat
  | [] => 0
  | segment :: rest => segment.utf8ByteSize + 1 + weight rest

@[simp] theorem weight_append (first second : List String) :
    weight (first ++ second) = weight first + weight second := by
  induction first with
  | nil => simp [weight]
  | cons segment rest ih =>
      rw [List.cons_append, weight, weight, ih]
      omega

theorem weight_filter_le (p : String → Bool) (segments : List String) :
    weight (segments.filter p) ≤ weight segments := by
  induction segments with
  | nil => exact Nat.le_refl _
  | cons segment rest ih =>
      by_cases hp : p segment = true
      · rw [List.filter_cons_of_pos hp, weight, weight]
        omega
      · rw [List.filter_cons_of_neg hp, weight]
        omega

theorem weight_joinSegments {segments : List String} (hne : segments ≠ []) :
    (joinSegments segments).utf8ByteSize + 1 = weight segments := by
  unfold joinSegments
  induction segments with
  | nil => exact absurd rfl hne
  | cons first rest ih =>
      cases rest with
      | nil => simp [weight]
      | cons next others =>
          have hrest := ih (List.cons_ne_nil next others)
          have hslash : "/".utf8ByteSize = 1 := by decide
          rw [String.intercalate_cons_cons, String.utf8ByteSize_append,
            String.utf8ByteSize_append, hslash, weight]
          omega

theorem joinSegments_segments (path : FilePath) : joinSegments path.segments = path.text := by
  have hjoin : ∀ parts : List (List Char),
      joinSegments (parts.map String.ofList) = String.ofList (Text.joinWith '/' parts) := by
    intro parts
    unfold joinSegments
    induction parts with
    | nil => rfl
    | cons first rest ih =>
        cases rest with
        | nil => simp [Text.joinWith]
        | cons next others =>
            rw [List.map_cons] at ih
            rw [List.map_cons, List.map_cons, String.intercalate_cons_cons, ih]
            apply String.toList_injective
            simp [Text.joinWith]
  rw [segments, hjoin, Text.joinWith_splitAt, String.ofList_toList]

theorem weight_segments (path : FilePath) :
    path.text.utf8ByteSize + 1 = weight path.segments := by
  rw [← weight_joinSegments (segments_ne_nil path), joinSegments_segments]

/-! ## Segments of the paths above -/

theorem steps_isPrefix {path above : FilePath} (h : above.segments <+: path.segments) :
    above.steps <+: path.steps :=
  h.filter _

theorem aboveLast?_concat {segments kept : List String} (h : aboveLast? segments = some kept)
    (hne : kept ≠ []) : ∃ before last, kept = before ++ [last] ∧ isSilent last = false := by
  have hconcat := List.dropLast_concat_getLast hne
  refine ⟨_, _, hconcat.symm, ?_⟩
  unfold aboveLast? at h
  cases hdropped : dropSilentEnd segments with
  | nil => simp [hdropped] at h
  | cons first rest =>
      rw [hdropped] at h
      exact dropSilentEnd_concat ((Option.some.inj h).trans hconcat.symm)

/-- A parent is the start of the path, or is written with the first segments up to one that says
something. -/
theorem parent?_cases {path above : FilePath} (h : path.parent? = some above) :
    above.text = "" ∨ (above.text = "/" ∧ path.isAbsolute = true) ∨
      (above.text = "." ∧ ["."] <+: path.segments) ∨
      ∃ before last, above.segments = before ++ [last] ∧ isSilent last = false ∧
        above.segments <+: path.segments := by
  have hclean : ∀ segment ∈ path.segments, '/' ∉ segment.toList :=
    fun segment hmem => no_slash_of_mem_segments hmem
  -- what is left is written again behind the segment that the path starts with
  have hfront : ∀ {first : String} {rest kept : List String}, path.segments = first :: rest →
      aboveLast? rest = some kept → kept ≠ [] →
      ∃ before last, segments ⟨first ++ "/" ++ joinSegments kept⟩ = before ++ [last] ∧
        isSilent last = false ∧
        segments ⟨first ++ "/" ++ joinSegments kept⟩ <+: path.segments := by
    intro first rest kept hsegments habove hne
    have hkept := (aboveLast?_eq_some habove).2
    obtain ⟨before, last, rfl, hlast⟩ := aboveLast?_concat habove hne
    rw [hsegments] at hclean ⊢
    have hjoined := segments_joinSegments hne fun segment hmem =>
      hclean segment (List.mem_cons_of_mem _ (hkept.subset hmem))
    rw [segments_append_slash, segments_of_no_slash (hclean first (by simp)), hjoined]
    exact ⟨first :: before, last, rfl, hlast, (List.prefix_append_right_inj [first]).mpr hkept⟩
  cases standsAbove_of_parent? h with
  | @absolute rest kept habsolute hsegments habove =>
      by_cases hne : kept = []
      · rw [hne]
        exact .inr (.inl ⟨rfl, habsolute⟩)
      · exact .inr (.inr (.inr (hfront hsegments habove hne)))
  | nothing => exact .inl rfl
  | @here rest _ hsegments _ =>
      refine .inr (.inr (.inl ⟨rfl, ?_⟩))
      rw [hsegments]
      exact ⟨rest, rfl⟩
  | behindHere _ hsegments habove hne =>
      exact .inr (.inr (.inr (hfront hsegments habove hne)))
  | @relative kept _ habove =>
      by_cases hne : kept = []
      · rw [hne]
        exact .inl rfl
      · have hkept := (aboveLast?_eq_some habove).2
        have hjoined := segments_joinSegments hne fun segment hmem =>
          hclean segment (hkept.subset hmem)
        obtain ⟨before, last, rfl, hlast⟩ := aboveLast?_concat habove hne
        refine .inr (.inr (.inr ⟨before, last, hjoined, hlast, ?_⟩))
        rw [hjoined]
        exact hkept

theorem parent?_segments {path above : FilePath} (h : path.parent? = some above) :
    above.segments <+: path.segments ∨ above.steps = [] := by
  obtain ⟨text⟩ := above
  rcases parent?_cases h with rfl | ⟨rfl, _⟩ | ⟨rfl, hfront⟩ | ⟨_, _, _, _, hfront⟩
  · exact .inr (by decide)
  · exact .inr (by decide)
  · exact .inl hfront
  · exact .inl hfront

theorem segments_of_mem_ancestors {path above : FilePath} (h : above ∈ path.ancestors) :
    above.segments <+: path.segments ∨ above.steps = [] := by
  have hwithin : ∀ (fuel : Nat) (path : FilePath), above ∈ ancestorsWithin fuel path →
      above.segments <+: path.segments ∨ above.steps = [] := by
    intro fuel
    induction fuel with
    | zero =>
        intro path hmem
        rw [ancestorsWithin, List.mem_singleton] at hmem
        exact .inl (hmem ▸ List.prefix_refl _)
    | succ fuel ih =>
        intro path hmem
        unfold ancestorsWithin at hmem
        split at hmem
        · rw [List.mem_singleton] at hmem
          exact .inl (hmem ▸ List.prefix_refl _)
        · next parent hparent =>
            rcases List.mem_cons.mp hmem with rfl | hmem
            · exact .inl (List.prefix_refl _)
            · rcases ih parent hmem with hfront | hnowhere
              · rcases parent?_segments hparent with hmore | hnone
                · exact .inl (hfront.trans hmore)
                · right
                  have hsteps := steps_isPrefix hfront
                  rw [hnone] at hsteps
                  exact List.prefix_nil.mp hsteps
              · exact .inr hnowhere
  exact hwithin _ path h

/-- The paths that are made before a path: they are written with its first segments, or lead
nowhere. -/
theorem segments_of_mem_above {path parent above : FilePath} (hparent : path.parent? = some parent)
    (h : above ∈ parent.ancestors) :
    (above.segments <+: path.segments ∨ above.steps = []) ∧
      above.isAbsolute = path.isAbsolute := by
  refine ⟨?_, (moves_of_mem_ancestors h).2.trans (parent?_eq_some hparent).2⟩
  rcases segments_of_mem_ancestors h with hfirst | hnowhere
  · rcases parent?_segments hparent with hfront | hnone
    · exact .inl (hfirst.trans hfront)
    · right
      have hsteps := steps_isPrefix hfirst
      rw [hnone] at hsteps
      exact List.prefix_nil.mp hsteps
  · exact .inr hnowhere

/-- A path that moves goes on behind all of them. -/
theorem steps_of_mem_above {path parent above : FilePath} (hparent : path.parent? = some parent)
    (h : above ∈ parent.ancestors) (hmoves : path.moves ≠ []) :
    ∃ rest, path.steps = above.steps ++ rest ∧ rest ≠ [] := by
  have hfront : above.steps <+: path.steps := by
    rcases (segments_of_mem_above hparent h).1 with hfirst | hnowhere
    · exact steps_isPrefix hfirst
    · rw [hnowhere]
      exact List.nil_prefix
  obtain ⟨rest, hrest⟩ := hfront
  refine ⟨rest, hrest.symm, ?_⟩
  rintro rfl
  rw [List.append_nil] at hrest
  have hall : above.moves = path.moves := by
    rw [moves_eq_filter_steps, moves_eq_filter_steps, hrest]
  have hfewer := (moves_of_mem_ancestors h).1.length_le
  have hpositive := List.length_pos_iff.mpr hmoves
  rw [hall, (parent?_eq_some hparent).1, List.length_dropLast] at hfewer
  omega

/-! ## How the paths above are written -/

theorem joinSegments_isPrefix {first second : List String} (h : first <+: second) :
    ∃ rest, joinSegments second = joinSegments first ++ rest := by
  obtain ⟨more, rfl⟩ := h
  unfold joinSegments
  induction first with
  | nil => exact ⟨_, (String.empty_append).symm⟩
  | cons segment others ih =>
      cases others with
      | nil =>
          cases more with
          | nil => exact ⟨"", by simp⟩
          | cons next last =>
              rw [List.singleton_append, String.intercalate_cons_cons,
                String.intercalate_singleton, String.append_assoc]
              exact ⟨_, rfl⟩
      | cons next last =>
          obtain ⟨rest, hrest⟩ := ih
          rw [List.cons_append] at hrest
          rw [List.cons_append, List.cons_append, String.intercalate_cons_cons, hrest,
            String.intercalate_cons_cons]
          exact ⟨rest, by simp [String.append_assoc]⟩

theorem parent?_text {path above : FilePath} (h : path.parent? = some above) :
    ∃ rest, path.text = above.text ++ rest := by
  have hsegments : above.segments <+: path.segments → ∃ rest, path.text = above.text ++ rest := by
    intro hfront
    rw [← joinSegments_segments path, ← joinSegments_segments above]
    exact joinSegments_isPrefix hfront
  obtain ⟨text⟩ := above
  rcases parent?_cases h with rfl | ⟨rfl, habsolute⟩ | ⟨rfl, hfront⟩ | ⟨_, _, _, _, hfront⟩
  · exact ⟨path.text, String.empty_append.symm⟩
  · have hhead : path.text.toList.head? = some '/' := by simpa [isAbsolute] using habsolute
    obtain ⟨rest, hrest⟩ := List.head?_eq_some_iff.mp hhead
    refine ⟨String.ofList rest, ?_⟩
    apply String.toList_injective
    rw [hrest]
    simp
  · exact hsegments hfront
  · exact hsegments hfront

/-- Behind the steps of the path above come the last move of a path and steps that stay. -/
theorem steps_of_parent {path above : FilePath} (h : path.parent? = some above) :
    ∃ more, path.steps = above.steps ++ more ∧
      path.moves = above.moves ++ more.filter fun step => step != "." := by
  have hmore : ∃ more, path.steps = above.steps ++ more := by
    rcases parent?_segments h with hfront | hnowhere
    · obtain ⟨more, hmore⟩ := steps_isPrefix hfront
      exact ⟨more, hmore.symm⟩
    · exact ⟨path.steps, by rw [hnowhere, List.nil_append]⟩
  obtain ⟨more, hmore⟩ := hmore
  refine ⟨more, hmore, ?_⟩
  rw [moves_eq_filter_steps, moves_eq_filter_steps, hmore, List.filter_append]

def EndsInMove (path : FilePath) : Prop :=
  path.moves = [] ∨ ∃ before last, path.steps = before ++ [last] ∧ last ≠ "."

theorem endsInMove_of_parent {path above : FilePath} (h : path.parent? = some above) :
    above.EndsInMove := by
  obtain ⟨text⟩ := above
  rcases parent?_cases h with rfl | ⟨rfl, _⟩ | ⟨rfl, _⟩ | ⟨before, last, hsegments, hlast, _⟩
  · exact .inl (by decide)
  · exact .inl (by decide)
  · exact .inl (by decide)
  · simp only [isSilent, Bool.or_eq_false_iff, beq_eq_false_iff_ne] at hlast
    refine .inr ⟨before.filter fun segment => segment != "", last, ?_, hlast.2⟩
    rw [steps, hsegments, List.filter_append]
    simp [hlast.1]

theorem moves_of_parent?_eq_none {path : FilePath} (h : path.parent? = none) :
    path.moves = [] := by
  unfold parent? at h
  split at h
  · next first rest habsolute hsegments =>
      have hnone := aboveLast?_eq_none (Option.map_eq_none_iff.mp h)
      obtain rfl := segments_eq_of_isAbsolute habsolute hsegments
      rw [moves, hsegments, List.filter_cons_of_neg (by decide), hnone]
  · split at h <;> exact absurd h (by simp)
  · exact aboveLast?_eq_none (Option.map_eq_none_iff.mp h)

theorem length_moves_le (path : FilePath) : path.moves.length ≤ path.text.length := by
  have hparts : ∀ text : List Char,
      (Text.splitAt '/' text).countP (fun part => decide (part ≠ [])) ≤ text.length := by
    intro text
    induction text with
    | nil => decide
    | cons c rest ih =>
        unfold Text.splitAt
        split
        · rw [List.countP_cons_of_neg (by simp), List.length_cons]
          omega
        · cases hs : Text.splitAt '/' rest with
          | nil => exact absurd hs (Text.splitAt_ne_nil '/' rest)
          | cons part parts =>
              rw [hs, List.countP_cons] at ih
              rw [List.countP_cons_of_pos (by simp), List.length_cons]
              omega
  have hmoves : path.moves.length ≤
      (Text.splitAt '/' path.text.toList).countP (fun part => decide (part ≠ [])) := by
    rw [moves, segments, ← List.countP_eq_length_filter, List.countP_map]
    apply List.countP_mono_left
    intro part _ hpart
    simp only [decide_eq_true_eq]
    rintro rfl
    simp [isSilent] at hpart
  have hchars := hparts path.text.toList
  rw [String.length_toList] at hchars
  omega

end FilePath

end MediaMigration
