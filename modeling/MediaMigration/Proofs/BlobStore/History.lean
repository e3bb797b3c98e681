import MediaMigration.BlobStore.Listing
import MediaMigration.Proofs.BlobStore.Upload

/-!
# Histories of a store

Calls come to a store one after the other, each with the tree that the last one left. As
long as the store keeps existing blobs, no call changes or removes a file that was there
before it, and the only file that a call can add is the blob that it was to write.
-/

namespace MediaMigration

namespace BlobStore

open FileTree

inductive Request where
  | upload (container blob : String) (content : Content) (cancellation : Cancellation)
  | copy (container blob fromContainer fromBlob : String) (cancellation : Cancellation)
  | list (container : String)
deriving DecidableEq, Repr

inductive Reply where
  | written (count : Nat)
  | names (blobs : List String)
deriving DecidableEq, Repr

/-- A call that has returned, with the tree before and after it. -/
structure Exchange where
  request : Request
  before : FileTree
  response : Except MigrationError Reply
  after : FileTree

def Request.target? : Request → Option (String × String)
  | upload container blob _ _ => some (container, blob)
  | copy container blob _ _ _ => some (container, blob)
  | list _ => none

def serve (store : BlobStore) (request : Request) (tree : FileTree) : Exchange :=
  match request with
  | .upload container blob content cancellation =>
      let outcome := store.upload container blob content cancellation tree
      ⟨request, tree, outcome.result.map .written, outcome.tree⟩
  | .copy container blob fromContainer fromBlob cancellation =>
      let (result, after) := store.copy container blob fromContainer fromBlob cancellation tree
      ⟨request, tree, result.map .written, after⟩
  | .list container => ⟨request, tree, (store.list container tree).map .names, tree⟩

def history (store : BlobStore) : List Request → FileTree → List Exchange
  | [], _ => []
  | request :: rest, tree =>
      let exchange := store.serve request tree
      exchange :: store.history rest exchange.after

/-- Every regular file of a tree is in a later one, with the same bytes. -/
def FilesKept (tree later : FileTree) : Prop :=
  ∀ place content, tree.file? place = some content → later.file? place = some content

def SameFiles (tree later : FileTree) : Prop :=
  ∀ place, later.file? place = tree.file? place

/-- A later tree has one regular file more, where nothing was before. -/
def OneFileAdded (tree later : FileTree) (place : Location) (content : Bytes) : Prop :=
  tree.entryAt place = none ∧
    ∀ other, later.file? other = if other = place then some content else tree.file? other

/-- A call that was to write a blob and succeeded has added the file of the blob, any other
call has added and removed none. -/
def Exchange.AddsItsTargetOnly (store : BlobStore) (exchange : Exchange) : Prop :=
  match exchange.request.target?, exchange.response with
  | some (container, blob), .ok reply =>
      ∃ place content, OneFileAdded exchange.before exchange.after place content ∧
        store.stored? container blob exchange.after = some (place, content) ∧
        reply = .written content.length
  | _, _ => SameFiles exchange.before exchange.after

theorem filesKept_of_keptBy {tree later : FileTree} (h : KeptBy tree later) :
    FilesKept tree later :=
  fun _ _ hf => h.file?_kept hf

theorem StoresNew.oneFileAdded {store : BlobStore} {container blob : String}
    {tree after : FileTree} {place : Location} {content : Bytes}
    (h : StoresNew store container blob tree after place content) :
    OneFileAdded tree after place content :=
  ⟨h.absent, h.stores.file?_after⟩

/-! ## One call -/

theorem serve_spec {store : BlobStore} (hmode : store.overwrite = false) (request : Request)
    (tree : FileTree) :
    (store.serve request tree).before = tree ∧
      KeptBy tree (store.serve request tree).after ∧
      (store.serve request tree).AddsItsTargetOnly store := by
  cases request with
  | upload container blob content cancellation =>
      cases h : (store.upload container blob content cancellation tree).result with
      | error error =>
          refine ⟨rfl, upload_keeps hmode, ?_⟩
          simp only [Exchange.AddsItsTargetOnly, serve, Request.target?, h, Except.map]
          exact (upload_error hmode h).file?_eq
      | ok count =>
          obtain ⟨place, bytes, _, hstores, _, _, rfl⟩ := upload_ok hmode h
          refine ⟨rfl, upload_keeps hmode, ?_⟩
          simp only [Exchange.AddsItsTargetOnly, serve, Request.target?, h, Except.map]
          exact ⟨place, bytes, hstores.oneFileAdded, hstores.stores.stored?, rfl⟩
  | copy container blob fromContainer fromBlob cancellation =>
      cases h : (store.copy container blob fromContainer fromBlob cancellation tree).1 with
      | error error =>
          refine ⟨rfl, copy_keeps hmode, ?_⟩
          simp only [Exchange.AddsItsTargetOnly, serve, Request.target?, h, Except.map]
          exact (copy_error hmode h).file?_eq
      | ok count =>
          obtain ⟨_, place, bytes, _, hstores, rfl⟩ := copy_ok hmode h
          refine ⟨rfl, copy_keeps hmode, ?_⟩
          simp only [Exchange.AddsItsTargetOnly, serve, Request.target?, h, Except.map]
          exact ⟨place, bytes, hstores.oneFileAdded, hstores.stores.stored?, rfl⟩
  | list container => exact ⟨rfl, .refl tree, fun _ => rfl⟩

/-! ## Many calls -/

theorem history_keeps {store : BlobStore} (hmode : store.overwrite = false)
    (requests : List Request) (tree : FileTree) :
    ∀ exchange ∈ store.history requests tree,
      KeptBy tree exchange.before ∧ KeptBy exchange.before exchange.after ∧
        exchange.AddsItsTargetOnly store := by
  induction requests generalizing tree with
  | nil => simp [history]
  | cons request rest ih =>
      obtain ⟨hbefore, hkept, hadds⟩ := serve_spec hmode request tree
      intro exchange hmem
      rw [history, List.mem_cons] at hmem
      rcases hmem with rfl | hmem
      · rw [hbefore]
        exact ⟨.refl tree, hkept, hadds⟩
      · obtain ⟨hstart, hrest⟩ := ih _ exchange hmem
        exact ⟨hkept.trans hstart, hrest⟩

/-- Whatever calls are made, each finds all files of the start and of the calls before it,
keeps all files that it finds, and adds at most the blob that it was to write. -/
theorem history_damages_nothing (root : FilePath) (requests : List Request) (tree : FileTree) :
    ((keeping root).history requests tree).Pairwise
        (fun earlier later => FilesKept earlier.after later.before) ∧
      ∀ exchange ∈ (keeping root).history requests tree,
        FilesKept tree exchange.before ∧ FilesKept exchange.before exchange.after ∧
          exchange.AddsItsTargetOnly (keeping root) := by
  refine ⟨?_, fun exchange hmem => ?_⟩
  · induction requests generalizing tree with
    | nil => exact .nil
    | cons request rest ih =>
        refine .cons (fun later hlater => ?_) (ih _)
        exact filesKept_of_keptBy (history_keeps rfl rest _ later hlater).1
  · obtain ⟨hstart, hkept, hadds⟩ := history_keeps rfl requests tree exchange hmem
    exact ⟨filesKept_of_keptBy hstart, filesKept_of_keptBy hkept, hadds⟩

/-- The second upload of a name is refused, and the blob of the first is kept. -/
theorem history_keeps_taken_name :
    let store := keeping ⟨"store"⟩
    let first := store.serve (.upload "c" "b" (.chunks [[1]] none) .never) .empty
    let second := store.serve (.upload "c" "b" (.chunks [[2]] none) .never) first.after
    second ∈ store.history [first.request, second.request] .empty ∧
      second.response.toOption = none ∧ second.before.file? ["store", "c", "b"] = some [1] ∧
      FilesKept second.before second.after ∧ second.AddsItsTargetOnly store := by
  have hmem : ∀ (store : BlobStore) (tree : FileTree) (first second : Request),
      store.serve second (store.serve first tree).after ∈ store.history [first, second] tree :=
    fun _ _ _ _ => List.mem_cons_of_mem _ (List.mem_singleton.mpr rfl)
  refine ⟨hmem _ _ _ _, by decide +kernel, by decide +kernel, ?_⟩
  exact ((history_damages_nothing ⟨"store"⟩ _ .empty).2 _ (hmem _ _ _ _)).2

end BlobStore

end MediaMigration
