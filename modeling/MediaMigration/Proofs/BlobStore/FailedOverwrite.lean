import MediaMigration.Proofs.BlobStore.Names
import MediaMigration.Proofs.BlobStore.Transfer

/-!
# Overwriting that fails

A store that replaces blobs cuts the old file to nothing when it opens it. What fails before that
moment leaves the whole tree as it was: a token that is cancelled beforehand, a copy whose source
cannot be found or opened, a target that cannot be opened. What fails after it, in reading or in
writing and however much was written, takes the file away, and the old blob with it. Where the
system does not remove the file, it holds a front part of the new content.
-/

namespace MediaMigration

namespace BlobStore

open FileTree

/-! ## A store with one blob -/

namespace OneBlob

def store : BlobStore := ⟨⟨"store"⟩, true⟩

def tree : FileTree :=
  ((FileTree.empty.put ["store"] .directory).put ["store", "c"] .directory).put
    ["store", "c", "b"] (.file [0x6F, 0x6C, 0x64])

end OneBlob

variable {store : BlobStore} {container blob : String} {path : FilePath} {place : Location}
  {held : Bytes} {tree : FileTree} {cancellation : Cancellation}

/-! ## Opening a blob that is there -/

theorem moves_of_blobPath (h : store.blobPath container blob = .ok path) : path.moves ≠ [] := by
  obtain ⟨⟨_, hblob⟩, rfl⟩ := blobPath_eq_ok_iff.mp h
  rw [FilePath.moves_join (isAbsolute_eq_false hblob.relative)]
  exact List.append_ne_nil_of_right_ne_nil _ hblob.moves_ne_nil

/-- The token is not cancelled beforehand, and the system opens the file that is there. -/
def OpensTarget (refusals : Refusals) (cancellation : Cancellation) (place : Location) : Prop :=
  cancellation.foundAt 0 0 = false ∧ refusals.target? place = none

/-- The source of a copy has an accepted name, and its path leads to a place that the system opens:
a file, or a directory, which is opened but cannot be read. -/
def OpensSource (store : BlobStore) (refusals : Refusals) (fromContainer fromBlob : String)
    (tree : FileTree) (source : Location) : Prop :=
  ∃ path entry, store.blobPath fromContainer fromBlob = .ok path ∧
    tree.lookUp true path = .ok (source, entry) ∧ refusals.source? source = none

/-- No blob is there any more, or, where the system does not remove its file, one with a front part
of the new content. -/
def IsLost (store : BlobStore) (refusals : Refusals) (container blob : String) (place : Location)
    (content : Content) (tree after : FileTree) : Prop :=
  if refusals.removal place then
    ∃ written, store.stored? container blob after = some (place, written) ∧
      written <+: (content.read (tree.put place (.file []))).reads.flatten
  else store.stored? container blob after = none

variable {refusals : Refusals}

/-- To open a stored blob again nothing has to be made. If it is opened, its bytes are gone. -/
theorem openTargetUnder_of_stored (hmode : store.overwrite = true)
    (hpath : store.blobPath container blob = .ok path)
    (hfound : tree.lookUp true path = .ok (place, .file held)) :
    (refusals.target? place = none →
        store.openTargetUnder refusals container blob path tree =
          (.ok place, tree.put place (.file []))) ∧
      (refusals.target? place ≠ none →
        ∃ error, store.openTargetUnder refusals container blob path tree =
          (.error error, tree)) := by
  obtain ⟨_, _, hr, _⟩ := lookUp_eq_ok_iff.mp hfound
  rw [openTargetUnder, makeParent_of_resolve hr (moves_of_blobPath hpath)]
  simp only [hmode, if_true, createOrTruncate_of_lookUp hfound, Refusals.open?]
  cases refusals.target? place with
  | none => exact ⟨fun _ => rfl, fun hrefused => absurd rfl hrefused⟩
  | some error =>
      refine ⟨fun hopens => absurd hopens (by simp), fun _ => ?_⟩
      cases error <;> exact ⟨_, rfl⟩

theorem isWritable_of_stored (hmode : store.overwrite = true)
    (hpath : store.blobPath container blob = .ok path)
    (hfound : tree.lookUp true path = .ok (place, .file held)) : tree.IsWritable path place := by
  have hopen : store.openTarget container blob path tree = (.ok place, tree.put place (.file [])) :=
    (openTargetUnder_of_stored hmode hpath hfound).1 rfl
  obtain ⟨_, _, hr, _⟩ := lookUp_eq_ok_iff.mp hfound
  have hwritable := (openTarget_ok hopen).1
  rwa [makeParent_of_resolve hr (moves_of_blobPath hpath)] at hwritable

/-! ## Uploads and copies that fail -/

section Fails

variable {content : Content} (hmode : store.overwrite = true)
  (hstored : store.stored? container blob tree = some (place, held))
include hmode hstored

/-- An upload that does not come to open the blob that is there leaves the tree. -/
theorem uploadUnder_unopened (h : ¬ OpensTarget refusals cancellation place) :
    (store.uploadUnder refusals container blob content cancellation tree).tree = tree := by
  obtain ⟨path, hpath, hfound⟩ := stored?_eq_some_iff.mp hstored
  rw [uploadUnder]
  cases hnow : cancellation.foundAt 0 0 with
  | true => rfl
  | false =>
      have hrefused : refusals.target? place ≠ none := fun hopens => h ⟨hnow, hopens⟩
      obtain ⟨error, hopen⟩ := (openTargetUnder_of_stored hmode hpath hfound).2 hrefused
      rw [if_neg Bool.false_ne_true, hpath]
      simp only [hopen]

theorem uploadUnder_loses {error : MigrationError}
    (hopens : OpensTarget refusals cancellation place)
    (h : (store.uploadUnder refusals container blob content cancellation tree).result =
      .error error) :
    store.IsLost refusals container blob place content tree
      (store.uploadUnder refusals container blob content cancellation tree).tree := by
  obtain ⟨path, hpath, hfound⟩ := stored?_eq_some_iff.mp hstored
  have hwritable := isWritable_of_stored hmode hpath hfound
  have hfill : store.uploadUnder refusals container blob content cancellation tree =
      fillUnder refusals path place content cancellation (tree.put place (.file [])) := by
    rw [uploadUnder, hopens.1, if_neg Bool.false_ne_true, hpath]
    simp only [(openTargetUnder_of_stored hmode hpath hfound).1 hopens.2]
  rw [hfill] at h ⊢
  obtain ⟨written, hfront, hafter⟩ := fillUnder_error h
  rw [put_put] at hafter
  have hshown := hwritable.lookUp_put written
  rw [hafter, IsLost]
  cases refusals.removal place with
  | true => exact ⟨written, stored?_eq_some_iff.mpr ⟨path, hpath, hshown⟩, hfront⟩
  | false =>
      rw [if_neg Bool.false_ne_true, if_neg Bool.false_ne_true, stored?, hpath]
      exact fileOf?_removeFile hshown

end Fails

theorem copyUnder_of_source {fromContainer fromBlob : String} {source : Location}
    (h : store.OpensSource refusals fromContainer fromBlob tree source)
    (container blob : String) (cancellation : Cancellation) :
    store.copyUnder refusals container blob fromContainer fromBlob cancellation tree =
      ((store.uploadUnder refusals container blob (.fileAt source) cancellation tree).result,
        (store.uploadUnder refusals container blob (.fileAt source) cancellation tree).tree) := by
  obtain ⟨path, entry, hpath, hfound, hopens⟩ := h
  rw [copyUnder, hpath]
  simp only [hfound, Refusals.open?, hopens]

theorem copyUnder_without_source {fromContainer fromBlob : String}
    (h : ∀ source, ¬ store.OpensSource refusals fromContainer fromBlob tree source) :
    (store.copyUnder refusals container blob fromContainer fromBlob cancellation tree).2 =
      tree := by
  unfold copyUnder
  cases hpath : store.blobPath fromContainer fromBlob with
  | error refusal => rfl
  | ok path =>
      cases hfound : tree.lookUp true path with
      | error failure => simp only [hfound, Refusals.open?]
      | ok found =>
          cases hopens : refusals.source? found.1 with
          | some error => simp only [hfound, Refusals.open?, hopens]
          | none => exact absurd ⟨path, found.2, hpath, hfound, hopens⟩ (h found.1)

/-- A failed overwrite keeps the old blob, and the whole tree, if it fails before the blob is
opened: since the token is cancelled beforehand, or the source of a copy or the blob itself is not
opened. Any later failure loses it. -/
theorem failed_overwrite_keeps_unopened (refusals : Refusals) (hmode : store.overwrite = true)
    (hstored : store.stored? container blob tree = some (place, held)) :
    (∀ content cancellation error,
      (store.uploadUnder refusals container blob content cancellation tree).result =
          .error error →
        let after := (store.uploadUnder refusals container blob content cancellation tree).tree
        (¬ OpensTarget refusals cancellation place → after = tree) ∧
          (OpensTarget refusals cancellation place →
            store.IsLost refusals container blob place content tree after)) ∧
      ∀ fromContainer fromBlob cancellation error,
        (store.copyUnder refusals container blob fromContainer fromBlob cancellation tree).1 =
            .error error →
          let after :=
            (store.copyUnder refusals container blob fromContainer fromBlob cancellation tree).2
          ((∀ source, ¬ store.OpensSource refusals fromContainer fromBlob tree source) ∨
              ¬ OpensTarget refusals cancellation place → after = tree) ∧
            ∀ source, store.OpensSource refusals fromContainer fromBlob tree source →
              OpensTarget refusals cancellation place →
                store.IsLost refusals container blob place (.fileAt source) tree after := by
  constructor
  · intro content cancellation error herror
    exact ⟨uploadUnder_unopened hmode hstored,
      fun hopens => uploadUnder_loses hmode hstored hopens herror⟩
  · intro fromContainer fromBlob cancellation error herror
    constructor
    · intro hbefore
      by_cases hsource : ∃ source, store.OpensSource refusals fromContainer fromBlob tree source
      · obtain ⟨source, hsource⟩ := hsource
        have hunopened := hbefore.resolve_left fun hnone => hnone source hsource
        rw [copyUnder_of_source hsource]
        exact uploadUnder_unopened hmode hstored hunopened
      · exact copyUnder_without_source (not_exists.mp hsource)
    · intro source hsource hopens
      rw [copyUnder_of_source hsource] at herror ⊢
      exact uploadUnder_loses hmode hstored hopens herror

/-- One chunk is read before the reader fails. The old blob is not kept. -/
theorem failed_overwrite_loses_blob :
    let outcome := OneBlob.store.upload "c" "b" (.chunks [[0x6E, 0x65, 0x77]] (some (.other "x")))
      .never OneBlob.tree
    OneBlob.store.stored? "c" "b" OneBlob.tree =
        some (["store", "c", "b"], [0x6F, 0x6C, 0x64]) ∧
      outcome.result = .error (.io (.other "x")) ∧
      OneBlob.store.stored? "c" "b" outcome.tree = none := by
  decide +kernel

/-- A copy whose source may not be read leaves the tree as it was. A copy that is cancelled while it
runs takes the blob away. -/
theorem failed_overwrite_keeps_unopened_copies :
    let unreadable : Refusals :=
      { Refusals.nothing with source? := fun _ => some (.other "Permission denied (os error 13)") }
    let refused := OneBlob.store.copyUnder unreadable "c" "b" "c" "b" .never OneBlob.tree
    let stopped := OneBlob.store.copy "c" "b" "c" "b" (.atLook 1) OneBlob.tree
    OneBlob.store.overwrite = true ∧
      OneBlob.store.stored? "c" "b" OneBlob.tree =
        some (["store", "c", "b"], [0x6F, 0x6C, 0x64]) ∧
      refused.1 = .error (.uploadFailed "c" "b"
        "copy source unavailable: Permission denied (os error 13)") ∧
      refused.2 = OneBlob.tree ∧
      stopped.1 = .error .cancelled ∧ OneBlob.store.stored? "c" "b" stopped.2 = none := by
  intro unreadable refused stopped
  have hstored : OneBlob.store.stored? "c" "b" OneBlob.tree =
      some (["store", "c", "b"], [0x6F, 0x6C, 0x64]) := by decide +kernel
  have hpath : OneBlob.store.blobPath "c" "b" = .ok ⟨"store/c/b"⟩ := by decide +kernel
  have hfound : OneBlob.tree.lookUp true ⟨"store/c/b"⟩ =
      .ok (["store", "c", "b"], .file [0x6F, 0x6C, 0x64]) := by decide +kernel
  have hrefused : refused.1 = .error (.uploadFailed "c" "b"
      "copy source unavailable: Permission denied (os error 13)") := by decide +kernel
  have hstopped : stopped.1 = .error .cancelled := by decide +kernel
  refine ⟨rfl, hstored, hrefused, ?_, hstopped, ?_⟩
  · refine ((failed_overwrite_keeps_unopened unreadable rfl hstored).2 _ _ _ _ hrefused).1 (.inl ?_)
    rintro source ⟨_, _, _, _, hopens⟩
    exact absurd hopens (by simp [unreadable])
  · exact ((failed_overwrite_keeps_unopened .nothing rfl hstored).2 _ _ _ _ hstopped).2
      ["store", "c", "b"] ⟨_, _, hpath, hfound, rfl⟩ ⟨rfl, rfl⟩

end BlobStore

end MediaMigration
