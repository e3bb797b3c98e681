import MediaMigration.Proofs.ResourceName.FrontName

/-!
# Legal names in two parts

A name is split at its first slash into a container and a prefix for the names of blobs. The split
lowers and clamps the container and closes the prefix with a slash. Of a legal name nothing is lost
by it: each part of the name is in lower case and short enough already, and what stands before the
first slash has the letter or the digit that the name starts with. Written out, the two parts are
the name again, with at most one slash more behind it.
-/

namespace MediaMigration

namespace Placement

open ResourceName

variable {name : String}

theorem front_isPrefixOf (text : List Char) : front text <+: text :=
  List.takeWhile_prefix _

theorem front_of_no_slash {text : List Char} (h : '/' ∉ text) : front text = text := by
  refine List.takeWhile_eq_self_iff.mpr fun c hc => ?_
  simpa using fun heq : c = '/' => h (heq ▸ hc)

theorem length_front_le (h : IsLegal name) : (front name.toList).length ≤ 63 := by
  have hlength := (front_isPrefixOf name.toList).length_le
  rw [String.length_toList] at hlength
  exact Nat.le_trans hlength h.length_le_sixtyThree

theorem clampContainer_front (h : IsLegal name) :
    clampContainer (front name.toList) = front name.toList := by
  refine clampContainer_of_short (fun c hc => ?_) (length_front_le h)
  have hmem : c ∈ Unicode.lowercase name.toList := by
    rw [h.lower_case]
    exact (front_isPrefixOf _).sublist.mem hc
  exact Unicode.isSettled_of_mem_lowercase hmem

/-- A legal name is a container, or a container, a slash and what a prefix is made of. -/
theorem ofName_of_isLegal (h : IsLegal name) :
    ('/' ∉ name.toList ∧ ofName name = ⟨name, ""⟩) ∨
      ∃ rest, name.toList = front name.toList ++ '/' :: rest ∧
        ofName name = ⟨String.ofList (front name.toList), String.ofList (endWithSlash rest)⟩ := by
  have hclamp := clampContainer_front h
  by_cases hslash : '/' ∈ name.toList
  · obtain ⟨rest, hsplit⟩ := exists_behind_front hslash
    have hplacement : ofName (String.ofList (front name.toList ++ '/' :: rest)) = _ :=
      ofName_of_slash (slash_not_mem_front name.toList)
    rw [← hsplit, String.ofList_toList, hclamp] at hplacement
    exact .inr ⟨rest, hsplit, hplacement⟩
  · have hwhole := front_of_no_slash hslash
    have hplacement := ofName_of_no_slash hslash
    rw [hwhole] at hclamp
    rw [hclamp, String.ofList_toList] at hplacement
    exact .inl ⟨hslash, hplacement⟩

theorem startsAlphanumeric_front (h : IsLegal name) : StartsAlphanumeric (front name.toList) := by
  have hslash : Unicode.isAlphanumeric '/' = false := by decide +kernel
  obtain ⟨c, rest, hname, hc⟩ := h.starts_alphanumeric
  have hne : c ≠ '/' := by
    rintro rfl
    rw [hslash] at hc
    exact absurd hc (by decide)
  refine ⟨c, front rest, ?_, hc⟩
  rw [hname]
  exact List.takeWhile_cons_of_pos (by simpa using hne)

theorem endWithSlash_ne_nil (text : List Char) : endWithSlash text ≠ [] := by
  rw [endWithSlash]
  split
  · next hlast =>
      rintro rfl
      exact absurd hlast (by decide)
  · exact List.append_ne_nil_of_right_ne_nil _ (List.cons_ne_nil _ _)

theorem container_ofName (h : IsLegal name) :
    (ofName name).container = String.ofList (front name.toList) := by
  rcases ofName_of_isLegal h with ⟨hslash, hplacement⟩ | ⟨rest, _, hplacement⟩
  · have hfront := front_of_no_slash hslash
    rw [hplacement, hfront, String.ofList_toList]
  · rw [hplacement]

/-- There is a prefix exactly if there is a slash, since the slash behind a prefix is part of it. -/
theorem namePrefix_ofName_eq_empty_iff (h : IsLegal name) :
    (ofName name).namePrefix = "" ↔ '/' ∉ name.toList := by
  rcases ofName_of_isLegal h with ⟨hslash, hplacement⟩ | ⟨rest, hsplit, hplacement⟩
  · rw [hplacement]
    exact iff_of_true rfl hslash
  · have hmem : '/' ∈ name.toList := by
      rw [hsplit]
      exact List.mem_append_right _ List.mem_cons_self
    refine iff_of_false (fun hempty => ?_) (fun hslash => hslash hmem)
    rw [hplacement, String.ofList_eq_empty_iff] at hempty
    exact endWithSlash_ne_nil rest hempty

theorem toString_ofName (h : IsLegal name) :
    (ofName name).toString = name ∨ (ofName name).toString = name ++ "/" := by
  rcases ofName_of_isLegal h with ⟨_, hplacement⟩ | ⟨rest, hsplit, hplacement⟩
  · right
    rw [hplacement, Placement.toString, String.append_empty]
  · have hname : name = String.ofList (front name.toList) ++ "/" ++ String.ofList rest := by
      refine String.toList_inj.mp (hsplit.trans ?_)
      simp
    rw [hplacement, Placement.toString]
    by_cases hlast : rest.getLast? = some '/'
    · left
      rw [endWithSlash, if_pos hlast, ← hname]
    · right
      rw [endWithSlash, if_neg hlast, String.ofList_append, ← String.append_assoc, ← hname]

/-- Splitting the name of a text loses nothing: the container is what stands before the first slash
of the name, the prefix what stands behind it, closed with a slash, and both written out are the
name, with at most one slash behind it. -/
theorem split_loses_nothing (text : String) :
    let name := sanitize text
    let placement := ofName name
    let container := placement.container.toList
    StartsAlphanumeric container ∧ container.length ≤ 63 ∧ '/' ∉ container ∧
      container = name.toList.takeWhile (· ≠ '/') ∧
      (placement.namePrefix = "" ↔ '/' ∉ name.toList) ∧
      ('/' ∈ name.toList → ∃ rest, name.toList = container ++ '/' :: rest ∧
        placement.namePrefix.toList = if rest.getLast? = some '/' then rest else rest ++ ['/']) ∧
      (placement.toString = name ∨ placement.toString = name ++ "/") := by
  intro name placement container
  have hlegal : IsLegal name := isLegal_sanitize text
  have hcontainer : container = front name.toList := by
    rw [show container = (ofName name).container.toList from rfl, container_ofName hlegal,
      String.toList_ofList]
  refine ⟨?_, ?_, ?_, hcontainer, namePrefix_ofName_eq_empty_iff hlegal, fun hslash => ?_,
    toString_ofName hlegal⟩
  · rw [hcontainer]
    exact startsAlphanumeric_front hlegal
  · rw [hcontainer]
    exact length_front_le hlegal
  · rw [hcontainer]
    exact slash_not_mem_front name.toList
  · rcases ofName_of_isLegal hlegal with ⟨hno, _⟩ | ⟨rest, hsplit, hplacement⟩
    · exact absurd hslash hno
    · refine ⟨rest, by rw [hcontainer]; exact hsplit, ?_⟩
      rw [show placement = ofName name from rfl, hplacement, String.toList_ofList]
      rfl

end Placement

end MediaMigration
