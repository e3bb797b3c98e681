import MediaMigration.Proofs.FileTree.Creation

/-!
# Opening a file for writing

A file is opened at a place where a file is or nothing was. Once it has been written its path
shows it, and the rest of the tree is as it was: also a file that is replaced leaves every
path leading where it led.
-/

namespace MediaMigration

namespace FileTree

variable {tree : FileTree}

/-- A path leads to a name in a directory where a file can be written: a file is there, or
nothing. -/
def IsWritable (tree : FileTree) (path : FilePath) (place : Location) : Prop :=
  (tree.entryAt place = none ∨ ∃ content, tree.entryAt place = some (.file content)) ∧
    ∃ dir name slash follow, tree.resolve (.write follow) path = .ok (.child dir name, slash) ∧
      dir ++ [name] = place

theorem IsFree.isWritable {path : FilePath} {place : Location} (h : tree.IsFree path place) :
    tree.IsWritable path place := by
  obtain ⟨hfree, dir, name, slash, hr, hplace⟩ := h
  exact ⟨.inl hfree, dir, name, slash, false, hr, hplace⟩

/-- A path that is written to shows what is there, if that is no link. -/
theorem Leads.seen_of_opened {follow : Bool} {links : Nat} {dir parent : Location}
    {name : String} {steps : List String} {slash ended : Bool}
    (h : Leads tree (.write follow) links dir steps slash (.child parent name, ended))
    (hlink : ∀ target, tree.entryAt (parent ++ [name]) ≠ some (.link target)) :
    ended = false ∧ Leads tree (.see true) links dir steps slash (.child parent name, false) := by
  have hended : ended = false := by
    generalize hf : (Spot.child parent name, ended) = found at h
    induction h with
    | arrive hhalt =>
        cases hf
        cases hhalt with
        | child _ hrefuse _ _ => exact hrefuse
    | follow _ _ _ ih => exact ih hf
  subst hended
  exact ⟨rfl, h.seen hlink⟩

theorem createOrTruncate_ok {path : FilePath} {place : Location} {opened : FileTree}
    (h : tree.createOrTruncate path = .ok (place, opened)) :
    tree.IsWritable path place ∧ opened = tree.put place (.file []) := by
  unfold createOrTruncate at h
  split at h
  · exact absurd h (by simp)
  · exact absurd h (by simp)
  · next dir name slash hr =>
      have hlink : ∀ target, tree.entryAt (dir ++ [name]) ≠ some (.link target) :=
        (resolve_eq_ok_iff.mp hr).2.not_link (fun _ => rfl)
      cases hp : tree.entryAt (dir ++ [name]) with
      | none =>
          simp only [hp, Except.ok.injEq, Prod.mk.injEq] at h
          obtain ⟨rfl, rfl⟩ := h
          exact ⟨⟨.inl hp, dir, name, slash, true, hr, rfl⟩, rfl⟩
      | some entry =>
          cases entry with
          | directory => simp [hp] at h
          | link target => exact absurd hp (hlink target)
          | file content =>
              simp only [hp, Except.ok.injEq, Prod.mk.injEq] at h
              obtain ⟨rfl, rfl⟩ := h
              exact ⟨⟨.inr ⟨content, hp⟩, dir, name, slash, true, hr, rfl⟩, rfl⟩

namespace IsWritable

variable {path : FilePath} {place : Location}

theorem ne_root (h : tree.IsWritable path place) : place ≠ [] := by
  obtain ⟨_, dir, name, _, _, _, rfl⟩ := h
  simp

theorem entryAt_put (h : tree.IsWritable path place) (content : Bytes) (other : Location) :
    (tree.put place (.file content)).entryAt other =
      if place = other then some (.file content) else tree.entryAt other :=
  FileTree.entryAt_put tree h.ne_root other _

/-- What is written takes nothing away but the bytes of the file that it replaces. -/
theorem growsTo_put (h : tree.IsWritable path place) (content : Bytes) :
    GrowsTo tree (tree.put place (.file content)) := by
  rcases h.1 with hnone | ⟨old, hfile⟩
  · exact (keptBy_put hnone (by simp)).toGrowsTo
  · refine ⟨rfl, ?_, ?_, ?_⟩
    · intro other hdirectory
      have hother : place ≠ other := by
        rintro rfl
        rw [hfile] at hdirectory
        exact absurd hdirectory (by simp)
      rw [h.entryAt_put, if_neg hother, hdirectory]
    · intro other bytes hbytes
      by_cases hother : place = other
      · exact ⟨content, by rw [h.entryAt_put, if_pos hother]⟩
      · exact ⟨bytes, by rw [h.entryAt_put, if_neg hother, hbytes]⟩
    · intro other target
      by_cases hother : place = other
      · rw [h.entryAt_put, if_pos hother, ← hother, hfile]
        simp
      · rw [h.entryAt_put, if_neg hother]

theorem lookUp_put (h : tree.IsWritable path place) (content : Bytes) :
    (tree.put place (.file content)).lookUp true path = .ok (place, .file content) := by
  have hgrows := h.growsTo_put content
  have hentry : (tree.put place (.file content)).entryAt place = some (.file content) := by
    rw [h.entryAt_put, if_pos rfl]
  obtain ⟨_, dir, name, slash, follow, hr, rfl⟩ := h
  obtain ⟨hpath, hlead⟩ := resolve_eq_ok_iff.mp (hgrows.resolve_eq hr)
  obtain ⟨_, hseen⟩ := hlead.seen_of_opened (by simp [hentry])
  exact lookUp_eq_ok_iff.mpr ⟨.child dir name, false,
    resolve_eq_ok_iff.mpr ⟨hpath, hseen⟩, rfl, hentry, fun _ => rfl⟩

end IsWritable

end FileTree

end MediaMigration
