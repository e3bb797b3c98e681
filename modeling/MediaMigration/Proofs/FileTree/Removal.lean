import MediaMigration.Proofs.FileTree.Approach

/-!
# Removing a file by its path

The path of a file names the file itself or a link that leads to it, and that is what is removed.
Afterwards the path shows nothing. Whatever another path shows is still shown, unless it was this
file: a path that came by the removed link would have ended at the file, for nothing leads on
behind one.
-/

namespace MediaMigration

namespace FileTree

variable {tree : FileTree} {path other : FilePath} {place outer : Location} {last : String}
  {content : Bytes}

theorem removeFile_eq_erase (h : tree.lookUp true path = .ok (place, .file content)) :
    ∃ outer last, tree.resolve (.write false) path = .ok (.child outer last, false) ∧
      tree.removeFile path = tree.erase (outer ++ [last]) ∧
      (outer ++ [last] = place ∨ tree.LinksTo outer last place) := by
  obtain ⟨spot, slash, hr, rfl, hentry, hslash⟩ := lookUp_eq_ok_iff.mp h
  obtain ⟨hpath, hlead⟩ := resolve_eq_ok_iff.mp hr
  obtain rfl := hslash (by simp)
  rcases hlead.unfollowed (.write false) rfl rfl with
    hsame | ⟨outer, last, hlink, hleads⟩
  · cases spot with
    | self place => exact absurd (hlead.self_directory.symm.trans hentry) (by simp)
    | child outer last =>
        have hnamed := resolve_eq_ok_iff.mpr ⟨hpath, hsame⟩
        rw [Spot.place] at hentry
        refine ⟨outer, last, hnamed, ?_, .inl rfl⟩
        rw [removeFile, hnamed]
        simp only [hentry]
  · have hnamed := resolve_eq_ok_iff.mpr ⟨hpath, hlink⟩
    have hended : path.endsWithSlash = false := by
      by_contra hslash
      exact absurd (hlead.slash_kept (by simpa using hslash)) (by simp)
    rw [hended] at hnamed
    obtain ⟨target, _, _, _, htarget, _⟩ := id hleads
    refine ⟨outer, last, hnamed, ?_, .inr hleads⟩
    rw [removeFile, hnamed]
    simp only [htarget]

/-! ## The path itself -/

theorem entryAt_of_erase {gone : Location} {entry : Entry} (hne : gone ≠ [])
    (h : (tree.erase gone).entryAt place = some entry) :
    place ≠ gone ∧ tree.entryAt place = some entry := by
  rw [entryAt_erase tree hne] at h
  split at h
  · exact absurd h (by simp)
  · next hother => exact ⟨Ne.symm hother, h⟩

theorem Walks.of_erase {gone dir : Location} {steps : List String} {halt : Halt} (hne : gone ≠ [])
    (h : Walks (tree.erase gone) dir steps halt) : Walks tree dir steps halt :=
  h.mono (fun _ hdirectory => (entryAt_of_erase hne hdirectory).2)
    fun _ _ _ _ _ hlink => (entryAt_of_erase hne hlink).2

/-- With its last name removed, a path leads nowhere else than to where the name was. -/
theorem Leads.spot_after_erase {links others : Nat} {dir : Location} {steps : List String}
    {slash ended reached : Bool} {found : Spot × Bool}
    (h : Leads tree (.write false) links dir steps slash (.child outer last, ended))
    (g : Leads (tree.erase (outer ++ [last])) (.see true) others dir steps reached found) :
    found.1 = .child outer last := by
  have hne : outer ++ [last] ≠ [] := by simp
  generalize hf : (Spot.child outer last, ended) = named at h
  obtain ⟨halt, hlater⟩ := g.walks
  induction h generalizing others reached halt with
  | arrive hhalt =>
      cases hf
      cases hhalt with
      | child hwalk _ _ _ =>
          cases hwalk.unique (hlater.of_erase hne)
          rw [g.of_walks_child hlater]
          exact fun target hlink => (entryAt_of_erase hne hlink).1 rfl
  | follow hhalt _ _ ih =>
      cases hhalt with
      | lastLink _ _ _ hfollow _ => exact absurd hfollow (by simp [Purpose.follows])
      | atLink hwalk =>
          cases hwalk.unique (hlater.of_erase hne)
          obtain ⟨_, _, hbehind⟩ := g.of_walks_link hlater
          obtain ⟨_, hnext⟩ := hbehind.walks
          exact ih hbehind hf _ hnext

/-- A file that was removed by its path is not shown by it, and nothing else is. -/
theorem lookUp_removeFile (h : tree.lookUp true path = .ok (place, .file content)) :
    ∃ error, (tree.removeFile path).lookUp true path = .error error := by
  obtain ⟨outer, last, hr, herase, _⟩ := removeFile_eq_erase h
  rw [herase]
  cases hl : (tree.erase (outer ++ [last])).lookUp true path with
  | error error => exact ⟨error, rfl⟩
  | ok found =>
      obtain ⟨spot, slash, hlater, hplace, hentry, _⟩ := lookUp_eq_ok_iff.mp hl
      have hspot : spot = .child outer last :=
        (resolve_eq_ok_iff.mp hr).2.spot_after_erase (resolve_eq_ok_iff.mp hlater).2
      rw [← hplace, hspot] at hentry
      exact absurd rfl (entryAt_of_erase (by simp) hentry).1

theorem fileOf?_removeFile (h : tree.lookUp true path = .ok (place, .file content)) :
    (tree.removeFile path).fileOf? path = none := by
  obtain ⟨error, herror⟩ := lookUp_removeFile h
  rw [fileOf?, herror]

/-! ## Other paths -/

theorem LinksTo.leads_erase (h : tree.LinksTo outer last place)
    (hfile : tree.entryAt place = some (.file content)) {links : Nat} {dir : Location}
    {steps : List String} {slash : Bool} {found : Spot × Bool}
    (hlead : Leads tree (.see true) links dir steps slash found) (hne : found.1.place ≠ place) :
    Leads (tree.erase (outer ++ [last])) (.see true) links dir steps slash found := by
  have hroot : outer ++ [last] ≠ [] := by simp
  obtain ⟨target, _, _, reached, hentry, hreached, rfl⟩ := h
  have hother : tree.entryAt (outer ++ [last]) ≠ some .directory := by simp [hentry]
  -- a halt at any link of the directory with this target leads to the file or nowhere
  have hwalks : ∀ {dir steps halt}, Walks tree dir steps halt →
      (∀ rest, halt ≠ .atLink outer target rest) →
      Walks (tree.erase (outer ++ [last])) dir steps halt := by
    intro dir steps halt hwalk hhalt
    refine hwalk.mono (fun _ hdirectory => directory_erase hdirectory hroot hother) ?_
    intro parent step aim rest heq hlink
    rw [entryAt_erase tree hroot, if_neg ?_, hlink]
    intro hsame
    obtain ⟨rfl, hstep⟩ := List.append_inj' hsame rfl
    rw [← hsame, hentry] at hlink
    cases hlink
    exact hhalt rest heq
  induction hlead with
  | arrive hhalt =>
      refine .arrive ?_
      cases hhalt with
      | self hwalk => exact .self (hwalks hwalk (by simp))
      | child hwalk hrefuse hshort hlink =>
          refine .child (hwalks hwalk (by simp)) hrefuse hshort fun hfollow aim hlater => ?_
          exact hlink hfollow aim (entryAt_of_erase hroot hlater).2
  | @follow _ _ parent _ rest _ aim _ hhalt htarget hnext ih =>
      have hapart : ¬ (parent = outer ∧ aim = target) := by
        rintro ⟨rfl, rfl⟩
        have hthere := hreached.ends_there (by simp [hfile]) hnext
        exact hne (congrArg Spot.place hthere)
      refine .follow ?_ htarget (ih hne)
      cases hhalt with
      | atLink hwalk =>
          refine .atLink (hwalks hwalk ?_)
          rintro others ⟨⟩
          exact hapart ⟨rfl, rfl⟩
      | @lastLink _ name _ hwalk hrefuse hshort hfollow hlink =>
          refine .lastLink (hwalks hwalk (by simp)) hrefuse hshort hfollow ?_
          rw [entryAt_erase tree hroot, if_neg ?_, hlink]
          intro hsame
          obtain ⟨rfl, hlast⟩ := List.append_inj' hsame rfl
          rw [← hsame, hentry] at hlink
          cases hlink
          exact hapart ⟨rfl, rfl⟩

/-- Removing a file by its path leaves what other paths show. -/
theorem lookUp_removeFile_other (h : tree.lookUp true path = .ok (place, .file content))
    {otherPlace : Location} {entry : Entry}
    (hl : tree.lookUp true other = .ok (otherPlace, entry)) (hne : otherPlace ≠ place) :
    (tree.removeFile path).lookUp true other = .ok (otherPlace, entry) := by
  have hfile := entryAt_of_lookUp h
  have hnotLink := lookUp_true_not_link hl
  obtain ⟨spot, slash, hr, rfl, hentry, hslash⟩ := lookUp_eq_ok_iff.mp hl
  obtain ⟨hpath, hlead⟩ := resolve_eq_ok_iff.mp hr
  obtain ⟨outer, last, _, herase, hgone⟩ := removeFile_eq_erase h
  have hroot : outer ++ [last] ≠ [] := by simp
  have hkept : spot.place ≠ outer ++ [last] := by
    rcases hgone with hsame | ⟨target, _, _, _, hlink, _⟩
    · rwa [hsame]
    · intro hsame
      rw [← hsame, hentry] at hlink
      exact hnotLink target (Option.some.inj hlink)
  have hlater : Leads (tree.erase (outer ++ [last])) (.see true) maxLinks
      (if other.isAbsolute then [] else tree.workDir) other.steps other.endsWithSlash
      (spot, slash) := by
    rcases hgone with hsame | hlinks
    · have hfileHere := hsame ▸ hfile
      exact (keepsWays_erase hroot (by simp [hfileHere]) (by simp [hfileHere])).leads hlead
    · exact hlinks.leads_erase hfile hlead hne
  rw [herase]
  refine lookUp_eq_ok_iff.mpr
    ⟨spot, slash, resolve_eq_ok_iff.mpr ⟨hpath, hlater⟩, rfl, ?_, hslash⟩
  rw [entryAt_erase tree hroot, if_neg (Ne.symm hkept), hentry]

end FileTree

end MediaMigration
