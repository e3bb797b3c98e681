import MediaMigration.Proofs.BlobStore.NewBlobs
import MediaMigration.Proofs.BlobStore.Overwriting

/-!
# Files that are stored one after the other

The blobs of a container and the files of an asset are stored in the same way: one after the other,
each with what its path shows when its turn comes. In a store that overwrites a later one may take
the place of an earlier one, or of a file that is yet to be read. A file that is no target keeps its
bytes throughout, so it arrives at its own target, and it stays there unless a later one has the
same target.
-/

namespace MediaMigration

open FileTree

namespace BlobStore

structure Deposit where
  source : FilePath
  container : String
  blob : String

def Deposit.place? (deposit : Deposit) (store : BlobStore) (tree : FileTree) : Option Location :=
  store.place? tree (deposit.container, deposit.blob)

/-- Files are stored one after the other between two trees. A file that is its own target is cut to
nothing before it is read. -/
inductive Deposits (store : BlobStore) : List Deposit → FileTree → FileTree → Prop where
  | done (tree : FileTree) : Deposits store [] tree tree
  | next {deposit : Deposit} {rest : List Deposit} {tree middle later : FileTree}
      {source place : Location} {held : Bytes}
      (shown : tree.fileOf? deposit.source = some (source, held))
      (stores : Stores store deposit.container deposit.blob tree middle place
        (if source = place then [] else held))
      (others : Deposits store rest middle later) :
      Deposits store (deposit :: rest) tree later

variable {store : BlobStore} {tree later : FileTree} {deposits front rest : List Deposit}
  {path : FilePath} {spot : Location} {content : Bytes}

/-! ## Places of blobs -/

theorem place?_eq_of_stored? {container blob : String} {place : Location}
    (hs : store.stored? container blob tree = some (place, content)) :
    store.place? tree (container, blob) = some place := by
  simp only [BlobStore.place?, hs, Option.map_some]

/-- A blob that is stored stays where it is, whatever becomes of its bytes. -/
theorem place?_grown (h : GrowsTo tree later) {blob : String × String} {place : Location}
    (hp : store.place? tree blob = some place) : store.place? later blob = some place := by
  obtain ⟨⟨found, content⟩, hstored, rfl⟩ := Option.map_eq_some_iff.mp hp
  obtain ⟨path, hpath, hfound⟩ := stored?_eq_some_iff.mp hstored
  obtain ⟨other, hlater⟩ := h.lookUp_file hfound
  exact place?_eq_of_stored? (stored?_eq_some_iff.mpr ⟨path, hpath, hlater⟩)

namespace Deposits

theorem growsTo (h : Deposits store deposits tree later) : GrowsTo tree later := by
  induction h with
  | done tree => exact (KeptBy.refl tree).toGrowsTo
  | next _ stores _ ih => exact stores.growsTo.trans ih

theorem place?_of_mem (h : Deposits store deposits tree later) :
    ∀ deposit ∈ deposits, ∃ place, deposit.place? store later = some place := by
  induction h with
  | done tree => simp
  | next _ stores others ih =>
      intro deposit hmem
      rcases List.mem_cons.mp hmem with rfl | hmem
      · exact ⟨_, place?_grown others.growsTo (place?_eq_of_stored? stores.stored?)⟩
      · exact ih deposit hmem

theorem isSearchable_of_mem (h : Deposits store deposits tree later) :
    ∀ deposit ∈ deposits, IsSearchable deposit.source := by
  induction h with
  | done tree => simp
  | next shown _ _ ih =>
      intro deposit hmem
      rcases List.mem_cons.mp hmem with rfl | hmem
      · obtain ⟨_, _, hr, _⟩ := lookUp_eq_ok_iff.mp (fileOf?_eq_some_iff.mp shown)
        exact (resolve_eq_ok_iff.mp hr).1
      · exact ih deposit hmem

theorem fileOf?_kept (h : Deposits store deposits tree later)
    (hs : tree.fileOf? path = some (spot, content))
    (hapart : ∀ deposit ∈ deposits, deposit.place? store later ≠ some spot) :
    later.fileOf? path = some (spot, content) := by
  induction h with
  | done tree => exact hs
  | @next deposit rest tree middle later source place held _ stores others ih =>
      have htarget : deposit.place? store later = some place :=
        place?_grown others.growsTo (place?_eq_of_stored? stores.stored?)
      have hne : spot ≠ place := by
        rintro rfl
        exact hapart deposit List.mem_cons_self htarget
      apply ih (stores.fileOf?_other hs hne)
      intro other hother
      exact hapart other (List.mem_cons_of_mem _ hother)

theorem stored?_kept (h : Deposits store deposits tree later) {container blob : String}
    (hs : store.stored? container blob tree = some (spot, content))
    (hapart : ∀ deposit ∈ deposits, deposit.place? store later ≠ some spot) :
    store.stored? container blob later = some (spot, content) := by
  obtain ⟨path, hpath, hfound⟩ := stored?_eq_some_iff.mp hs
  have hlater := h.fileOf?_kept (fileOf?_eq_some_iff.mpr hfound) hapart
  exact stored?_eq_some_iff.mpr ⟨path, hpath, fileOf?_eq_some_iff.mp hlater⟩

theorem of_append (h : Deposits store (front ++ rest) tree later) :
    ∃ middle, Deposits store front tree middle ∧ Deposits store rest middle later := by
  induction front generalizing tree with
  | nil => exact ⟨tree, .done tree, h⟩
  | cons deposit others ih =>
      cases h with
      | next shown stores hothers =>
          obtain ⟨middle, hfront, hrest⟩ := ih hothers
          exact ⟨middle, .next shown stores hfront, hrest⟩

/-- A file that is no target arrives at its own target, and is there in the end if no later one has
the same target. -/
theorem arrives {deposit : Deposit} (h : Deposits store (front ++ deposit :: rest) tree later)
    (hs : tree.fileOf? deposit.source = some (spot, content))
    (hsource : ∀ other ∈ front ++ deposit :: rest, other.place? store later ≠ some spot)
    (hlast : ∀ other ∈ rest, other.place? store later ≠ deposit.place? store later) :
    ∃ target, store.stored? deposit.container deposit.blob later = some (target, content) := by
  obtain ⟨middle, hfront, hothers⟩ := h.of_append
  have hmiddle : middle.fileOf? deposit.source = some (spot, content) := by
    apply hfront.fileOf?_kept hs
    intro other hother hplace
    exact hsource other (List.mem_append_left _ hother) (place?_grown hothers.growsTo hplace)
  cases hothers with
  | @next _ _ _ after _ source place held shown stores hrest =>
      obtain ⟨rfl, rfl⟩ := Prod.mk.inj (Option.some.inj (hmiddle.symm.trans shown))
      have htarget : deposit.place? store later = some place :=
        place?_grown hrest.growsTo (place?_eq_of_stored? stores.stored?)
      have hne : spot ≠ place := by
        rintro rfl
        exact hsource deposit (List.mem_append_right _ List.mem_cons_self) htarget
      rw [if_neg hne] at stores
      refine ⟨place, hrest.stored?_kept stores.stored? ?_⟩
      intro other hother
      rw [← htarget]
      exact hlast other hother

end Deposits

end BlobStore

end MediaMigration
