import MediaMigration.Proofs.Migration.Targets
import MediaMigration.Proofs.ResourceName.FrontName

/-!
# Places of aligned names

A slash is no variant, so aligned names are split at the same places: into containers, and into
as many segments. Whatever is put behind them, the paths of their blobs can be told apart by the
first segments that differ, if the names differ at all.
-/

namespace MediaMigration

open ResourceName

/-! ## Segments of aligned texts -/

namespace ResourceName

variable {c d : Char} {text other : List Char}

theorem Aligned.eq_nil_iff (h : Aligned text other) : text = [] ↔ other = [] := by
  rw [← List.length_eq_zero_iff, h.length_eq, List.length_eq_zero_iff]

theorem splitAt_aligned (h : Aligned text other) :
    List.Forall₂ Aligned (Text.splitAt '/' text) (Text.splitAt '/' other) := by
  induction h with
  | nil => exact .cons .nil .nil
  | @cons c d rest otherRest halike _ ih =>
      have hslash : c = '/' ↔ d = '/' := halike.eq_iff_of_not_variant (by decide)
      by_cases hc : c = '/'
      · rw [Text.splitAt, Text.splitAt, if_pos hc, if_pos (hslash.mp hc)]
        exact .cons .nil ih
      · rw [Text.splitAt, Text.splitAt, if_neg hc, if_neg (mt hslash.mpr hc)]
        generalize Text.splitAt '/' rest = parts at ih
        generalize Text.splitAt '/' otherRest = otherParts at ih
        cases ih with
        | nil => exact .cons (.cons halike .nil) .nil
        | cons hpart hparts => exact .cons (.cons halike hpart) hparts

theorem isSilent_ofList_iff {part : List Char} (h : '.' ∉ part) :
    FilePath.isSilent (String.ofList part) = true ↔ part = [] := by
  rw [FilePath.isSilent, Bool.or_eq_true, beq_iff_eq, beq_iff_eq, ← String.ofList_nil,
    String.ofList_inj]
  constructor
  · rintro (hempty | hstop)
    · exact hempty
    · have hchars := congrArg String.toList hstop
      rw [String.toList_ofList] at hchars
      rw [hchars] at h
      exact absurd (by decide) h
  · exact .inl

theorem speaking_aligned {parts others : List (List Char)} (h : List.Forall₂ Aligned parts others)
    (hparts : ∀ part ∈ parts, '.' ∉ part) (hothers : ∀ part ∈ others, '.' ∉ part) :
    let speaking := fun parts : List (List Char) =>
      (parts.map String.ofList).filter fun segment => !FilePath.isSilent segment
    (speaking parts).length = (speaking others).length ∧
      (speaking parts = speaking others → parts = others) := by
  induction h with
  | nil => exact ⟨rfl, fun _ => rfl⟩
  | @cons part otherPart _ _ halign _ ih =>
      obtain ⟨hlength, hinjective⟩ :=
        ih (fun part hmem => hparts part (List.mem_cons_of_mem _ hmem))
          (fun part hmem => hothers part (List.mem_cons_of_mem _ hmem))
      have hsilent := isSilent_ofList_iff (hparts part List.mem_cons_self)
      have hotherSilent := isSilent_ofList_iff (hothers otherPart List.mem_cons_self)
      simp only [List.map_cons] at hlength hinjective ⊢
      by_cases hempty : part = []
      · have hotherEmpty := halign.eq_nil_iff.mp hempty
        rw [List.filter_cons_of_neg (by simp [hsilent.mpr hempty]),
          List.filter_cons_of_neg (by simp [hotherSilent.mpr hotherEmpty])]
        refine ⟨hlength, fun heq => ?_⟩
        rw [hempty, hotherEmpty, hinjective heq]
      · have hspeaks := Bool.eq_false_iff.mpr (mt hsilent.mp hempty)
        have hotherSpeaks :=
          Bool.eq_false_iff.mpr (mt hotherSilent.mp (mt halign.eq_nil_iff.mpr hempty))
        rw [List.filter_cons_of_pos (by simp [hspeaks]),
          List.filter_cons_of_pos (by simp [hotherSpeaks])]
        refine ⟨by rw [List.length_cons, List.length_cons, hlength], fun heq => ?_⟩
        obtain ⟨hhead, htail⟩ := List.cons.inj heq
        rw [String.ofList_inj.mp hhead, hinjective htail]

theorem moves_aligned (h : Aligned text other) (htext : '.' ∉ text) (hother : '.' ∉ other) :
    (FilePath.moves ⟨String.ofList text⟩).length = (FilePath.moves ⟨String.ofList other⟩).length ∧
      (FilePath.moves ⟨String.ofList text⟩ = FilePath.moves ⟨String.ofList other⟩ →
        text = other) := by
  obtain ⟨hlength, hinjective⟩ :=
    speaking_aligned (splitAt_aligned h)
      (fun _ hpart hstop => htext (Text.mem_of_mem_splitAt hpart hstop))
      (fun _ hpart hstop => hother (Text.mem_of_mem_splitAt hpart hstop))
  simp only [FilePath.moves, FilePath.segments, String.toList_ofList]
  refine ⟨hlength, fun heq => ?_⟩
  rw [← Text.joinWith_splitAt '/' text, hinjective heq, Text.joinWith_splitAt]

theorem first_slash (h : Aligned text other) :
    ('/' ∉ text ∧ '/' ∉ other) ∨
      ∃ front rest otherFront otherRest, text = front ++ '/' :: rest ∧ '/' ∉ front ∧
        other = otherFront ++ '/' :: otherRest ∧ '/' ∉ otherFront ∧ Aligned rest otherRest := by
  induction h with
  | nil => exact .inl ⟨List.not_mem_nil, List.not_mem_nil⟩
  | @cons c d rest otherRest halike hrest ih =>
      have hslash : c = '/' ↔ d = '/' := halike.eq_iff_of_not_variant (by decide)
      by_cases hc : c = '/'
      · have hd := hslash.mp hc
        exact .inr ⟨[], rest, [], otherRest, by rw [hc]; rfl, List.not_mem_nil, by rw [hd]; rfl,
          List.not_mem_nil, hrest⟩
      · have hd : d ≠ '/' := mt hslash.mpr hc
        have hkept : ∀ {e : Char} {chars : List Char}, e ≠ '/' → '/' ∉ chars →
            '/' ∉ e :: chars := by
          intro e chars he hchars
          rw [List.mem_cons, not_or]
          exact ⟨Ne.symm he, hchars⟩
        rcases ih with ⟨hnone, hotherNone⟩ |
          ⟨front, behind, otherFront, otherBehind, htext, hfront, hother, hotherFront, hbehind⟩
        · exact .inl ⟨hkept hc hnone, hkept hd hotherNone⟩
        · exact .inr ⟨c :: front, behind, d :: otherFront, otherBehind, by rw [htext]; rfl,
            hkept hc hfront, by rw [hother]; rfl, hkept hd hotherFront, hbehind⟩

end ResourceName

/-! ## Placements of aligned names -/

namespace Placement

theorem endWithSlash_aligned {text other : List Char} (h : Aligned text other) :
    Aligned (endWithSlash text) (endWithSlash other) ∧
      (endWithSlash text = endWithSlash other → text = other) := by
  have hlast : text.getLast? = some '/' ↔ other.getLast? = some '/' := by
    have hreverse := KeepsApart.reverse.aligned h
    rw [List.getLast?_eq_head?_reverse, List.getLast?_eq_head?_reverse]
    generalize text.reverse = backward at hreverse ⊢
    generalize other.reverse = otherBackward at hreverse ⊢
    cases hreverse with
    | nil => simp
    | cons halike _ => simpa using halike.eq_iff_of_not_variant (by decide)
  rw [endWithSlash, endWithSlash]
  by_cases hslash : text.getLast? = some '/'
  · rw [if_pos hslash, if_pos (hlast.mp hslash)]
    exact ⟨h, id⟩
  · rw [if_neg hslash, if_neg (mt hlast.mpr hslash)]
    exact ⟨h.append (Aligned.refl _), fun heq => (h.append_inj heq).1⟩

theorem not_mem_endWithSlash {text : List Char} (h : '.' ∉ text) : '.' ∉ endWithSlash text := by
  unfold endWithSlash
  split
  · exact h
  · simp [h]

/-- The placements of two aligned names have prefixes of as many moves, and differ in the
container or in these moves unless the names are the same. -/
theorem ofName_aligned {name other : List Char} (h : Aligned name other)
    (hname : ∀ c ∈ name, IsClean c) (hother : ∀ c ∈ other, IsClean c)
    (hlength : name.length ≤ maxLength) :
    let first := ofName (String.ofList name)
    let second := ofName (String.ofList other)
    (FilePath.moves ⟨first.namePrefix⟩).length = (FilePath.moves ⟨second.namePrefix⟩).length ∧
      (first.container = second.container →
        FilePath.moves ⟨first.namePrefix⟩ = FilePath.moves ⟨second.namePrefix⟩ →
        name = other) := by
  have hotherLength : other.length ≤ maxLength := h.length_eq ▸ hlength
  rcases first_slash h with ⟨hnone, hotherNone⟩ |
    ⟨front, rest, otherFront, otherRest, rfl, hfront, rfl, hotherFront, hrest⟩
  · rw [ofName_of_no_slash hnone, ofName_of_no_slash hotherNone,
      clampContainer_of_short (fun c hc => (hname c hc).1) hlength,
      clampContainer_of_short (fun c hc => (hother c hc).1) hotherLength]
    exact ⟨rfl, fun hcontainer _ => String.ofList_inj.mp hcontainer⟩
  · have hshort : ∀ {front rest : List Char}, (∀ c ∈ front ++ '/' :: rest, IsClean c) →
        (front ++ '/' :: rest).length ≤ maxLength → clampContainer front = front := by
      intro front rest hclean hlength
      refine clampContainer_of_short (fun c hc => (hclean c (List.mem_append_left _ hc)).1) ?_
      rw [List.length_append] at hlength
      omega
    have hstop : ∀ {front rest : List Char}, (∀ c ∈ front ++ '/' :: rest, IsClean c) →
        '.' ∉ endWithSlash rest := by
      intro front rest hclean
      refine not_mem_endWithSlash fun hmem => ?_
      have hclean := hclean '.' (List.mem_append_right _ (List.mem_cons_of_mem _ hmem))
      exact hclean.2 (by decide)
    obtain ⟨hends, hinjective⟩ := endWithSlash_aligned hrest
    obtain ⟨hcount, hmoves⟩ := moves_aligned hends (hstop hname) (hstop hother)
    rw [ofName_of_slash hfront, ofName_of_slash hotherFront, hshort hname hlength,
      hshort hother hotherLength]
    refine ⟨hcount, fun hcontainer hsame => ?_⟩
    rw [String.ofList_inj.mp hcontainer, hinjective (hmoves hsame)]

end Placement

/-! ## Paths of their blobs -/

namespace BlobStore

variable {store : BlobStore} {placement : Placement} {name : String}

theorem components_of_isExpanded (store : BlobStore) (h : placement.IsExpanded)
    (hname : IsBlobName name) :
    ∃ path, store.blobPath placement.container (placement.blobName name) = .ok path ∧
      path.components = store.root.components ++ .name placement.container ::
        (FilePath.moves ⟨placement.namePrefix⟩ ++ FilePath.moves ⟨name⟩).map .name := by
  have hblob := h.isBlobName hname
  refine ⟨_, blobPath_eq_ok_iff.mpr ⟨⟨h.container, hblob⟩, rfl⟩, ?_⟩
  rw [hblob.components_join, h.container.components_join,
    Placement.moves_blobName h.ends_with_slash, List.append_assoc, List.singleton_append]

/-- Placements that differ in the container or in prefixes of as many moves have no path in
common. -/
theorem paths_apart {other : Placement} {otherName : String} (h : placement.IsExpanded)
    (hother : other.IsExpanded) (hname : IsBlobName name) (hotherName : IsBlobName otherName)
    (hlength : (FilePath.moves ⟨placement.namePrefix⟩).length =
      (FilePath.moves ⟨other.namePrefix⟩).length)
    (hapart : placement.container = other.container →
      FilePath.moves ⟨placement.namePrefix⟩ ≠ FilePath.moves ⟨other.namePrefix⟩) :
    ∃ path otherPath,
      store.blobPath placement.container (placement.blobName name) = .ok path ∧
      store.blobPath other.container (other.blobName otherName) = .ok otherPath ∧
      path.components ≠ otherPath.components := by
  obtain ⟨path, hpath, hcomponents⟩ := components_of_isExpanded store h hname
  obtain ⟨otherPath, hotherPath, hotherComponents⟩ :=
    components_of_isExpanded store hother hotherName
  refine ⟨path, otherPath, hpath, hotherPath, fun hsame => ?_⟩
  rw [hcomponents, hotherComponents] at hsame
  obtain ⟨hcontainer, hmoves⟩ := List.cons.inj (List.append_cancel_left hsame)
  rw [List.map_append, List.map_append] at hmoves
  have hprefix := (List.append_inj hmoves (by simpa using hlength)).1
  refine hapart (PathComponent.name.inj hcontainer) ?_
  exact List.map_injective_iff.mpr (fun _ _ heq => PathComponent.name.inj heq) hprefix

theorem places_apart {text other : List Char} (h : Aligned text other) (hne : text ≠ other)
    (hcut : ¬ IsCut text) (hotherCut : ¬ IsCut other) :
    let first := Placement.ofName (sanitize (String.ofList text))
    let second := Placement.ofName (sanitize (String.ofList other))
    first ≠ second ∧
      ∀ (store : BlobStore) (name otherName : String), isPlainName name = true →
        isPlainName otherName = true → ∃ path otherPath,
          store.blobPath first.container (first.blobName name) = .ok path ∧
          store.blobPath second.container (second.blobName otherName) = .ok otherPath ∧
          path.components ≠ otherPath.components := by
  have hname : ∀ chars, sanitize (String.ofList chars) = String.ofList (sanitizeChars chars) :=
    fun chars => by rw [sanitize, String.toList_ofList]
  rw [hname, hname]
  intro first second
  obtain ⟨haligned, hinjective⟩ := sanitizeChars_aligned h hcut hotherCut
  obtain ⟨hlength, hsame⟩ := Placement.ofName_aligned haligned
    (fun _ hc => isClean_of_mem_sanitizeChars hc) (fun _ hc => isClean_of_mem_sanitizeChars hc)
    (length_sanitizeChars text).2
  have hapart : first.container = second.container →
      FilePath.moves ⟨first.namePrefix⟩ ≠ FilePath.moves ⟨second.namePrefix⟩ :=
    fun hcontainer hmoves => hne (hinjective (hsame hcontainer hmoves))
  refine ⟨fun heq => hapart (congrArg _ heq) (by rw [heq]), ?_⟩
  intro store name otherName hplain hotherPlain
  exact paths_apart (Placement.isExpanded_ofName text) (Placement.isExpanded_ofName other)
    (isPlainName_iff.mp hplain) (isPlainName_iff.mp hotherPlain) hlength hapart

end BlobStore

end MediaMigration
