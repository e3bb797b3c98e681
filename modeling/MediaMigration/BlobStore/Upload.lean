import MediaMigration.BlobStore.Basic
import MediaMigration.BlobStore.Content

/-!
# Uploads and copies

An upload opens the target, moves the content to it read by read, and reports the bytes
written after each. A cancellation is noticed before the target is opened and before each
read. A target that was opened is removed again when the upload fails, so that what is left
of it does not stand in the way of the next attempt. A copy is an upload whose content is
another blob.

Each operation is told what the system refuses to it. The operations of the program are those
that nothing is refused to.
-/

namespace MediaMigration

/-- When an operation is cancelled: never, when its token has been looked at so many times,
or as soon as the bytes written are reported to be at least a number. -/
inductive Cancellation where
  | never
  | atLook (count : Nat)
  | atBytes (count : Nat)
deriving DecidableEq, Repr

namespace Cancellation

def beforehand : Cancellation :=
  atLook 0

/-- Is the token found cancelled by the look of this number? Look 0 comes before the target
is opened and the others before each read, when `written` bytes have been reported. Nothing
has been reported before look 2. -/
def foundAt (cancellation : Cancellation) (look written : Nat) : Bool :=
  match cancellation with
  | never => false
  | atLook count => count ≤ look
  | atBytes count => 2 ≤ look && count ≤ written

end Cancellation

structure Transfer where
  result : Except MigrationError Nat
  progress : List Nat
  moved : Bytes

structure UploadOutcome where
  result : Except MigrationError Nat
  progress : List Nat
  tree : FileTree

/-- What the system refuses although the path leads there: opening a file for reading, reading on
in it after so many reads, opening a file for writing, writing on in it after so many reads, and
removing a file. -/
structure Refusals where
  source? : Location → Option IoError
  reading? : Location → Option (Nat × IoError)
  target? : Location → Option IoError
  writing? : Location → Option (Nat × IoError)
  removal : Location → Bool

/-- A reading that breaks off after so many reads, unless it ends before that or fails there. -/
def Reading.cutOff (reading : Reading) : Option (Nat × IoError) → Reading
  | none => reading
  | some (count, error) =>
      if count < reading.reads.length then ⟨reading.reads.take count, some error⟩
      else if count = reading.reads.length then ⟨reading.reads, reading.failure?.or (some error)⟩
      else reading

theorem Reading.cutOff_isPrefix (reading : Reading) (broken? : Option (Nat × IoError)) :
    (reading.cutOff broken?).reads <+: reading.reads := by
  unfold cutOff
  split
  · exact List.prefix_refl _
  · split
    · exact List.take_prefix _ _
    · split <;> exact List.prefix_refl _

namespace Refusals

def nothing : Refusals where
  source? _ := none
  reading? _ := none
  target? _ := none
  writing? _ := none
  removal _ := false

def open? {α : Type} (refused? : Location → Option IoError) :
    Except IoError (Location × α) → Except IoError (Location × α)
  | .error error => .error error
  | .ok (place, found) =>
      match refused? place with
      | some error => .error error
      | none => .ok (place, found)

def read (refusals : Refusals) (tree : FileTree) (content : Content) : Reading :=
  match content with
  | .chunks _ _ => content.read tree
  | .fileAt place => (content.read tree).cutOff (refusals.reading? place)

@[simp] theorem open?_nothing {α : Type} (found : Except IoError (Location × α)) :
    open? (fun _ => none) found = found := by
  cases found <;> rfl

@[simp] theorem read_nothing (tree : FileTree) (content : Content) :
    nothing.read tree content = content.read tree := by
  cases content <;> rfl

theorem read_isPrefix (refusals : Refusals) (tree : FileTree) (content : Content) :
    (refusals.read tree content).reads <+: (content.read tree).reads := by
  cases content with
  | chunks pieces failure? => exact List.prefix_refl _
  | fileAt place => exact Reading.cutOff_isPrefix _ _

end Refusals

namespace BlobStore

/-- Move reads to a target that has `written` bytes already. The token is looked at before
each read, also before the one that finds the end. -/
def transfer (cancellation : Cancellation) (failure? : Option IoError) :
    List Bytes → Nat → Nat → Transfer
  | [], look, written =>
      if cancellation.foundAt look written then ⟨.error .cancelled, [], []⟩
      else
        match failure? with
        | some error => ⟨.error (.io error), [], []⟩
        | none => ⟨.ok written, [], []⟩
  | chunk :: rest, look, written =>
      if cancellation.foundAt look written then ⟨.error .cancelled, [], []⟩
      else
        let total := written + chunk.length
        let next := transfer cancellation failure? rest (look + 1) total
        ⟨next.result, total :: next.progress, chunk ++ next.moved⟩

/-- Open the file of a blob for writing, after making the directories above it. -/
def openTargetUnder (store : BlobStore) (refusals : Refusals) (container blob : String)
    (path : FilePath) (tree : FileTree) : Except MigrationError Location × FileTree :=
  match tree.makeParent path with
  | (.error error, tree) => (.error (.io error), tree)
  | (.ok (), tree) =>
      match Refusals.open? refusals.target?
        (if store.overwrite then tree.createOrTruncate path else tree.createNew path) with
      | .ok (place, tree) => (.ok place, tree)
      | .error .alreadyExists => (.error (.blobExists container blob), tree)
      | .error error => (.error (.uploadFailed container blob error.message), tree)

/-- Fill an opened target, and remove it again if that fails. That it cannot be removed is not
reported. -/
def fillUnder (refusals : Refusals) (path : FilePath) (target : Location) (content : Content)
    (cancellation : Cancellation) (tree : FileTree) : UploadOutcome :=
  let reading := (refusals.read tree content).cutOff (refusals.writing? target)
  let transfer := transfer cancellation reading.failure? reading.reads 1 0
  let written := tree.put target (.file transfer.moved)
  match transfer.result with
  | .ok count => ⟨.ok count, transfer.progress, written⟩
  | .error error =>
      ⟨.error error, transfer.progress,
        if refusals.removal target then written else written.removeFile path⟩

def uploadUnder (store : BlobStore) (refusals : Refusals) (container blob : String)
    (content : Content) (cancellation : Cancellation) (tree : FileTree) : UploadOutcome :=
  if cancellation.foundAt 0 0 then ⟨.error .cancelled, [], tree⟩
  else
    match store.blobPath container blob with
    | .error error => ⟨.error error, [], tree⟩
    | .ok path =>
        match store.openTargetUnder refusals container blob path tree with
        | (.error error, tree) => ⟨.error error, [], tree⟩
        | (.ok target, tree) => fillUnder refusals path target content cancellation tree

def sourceUnavailable (error : IoError) : String :=
  "copy source unavailable: " ++ error.message

/-- Store the content of another blob as a blob. The source is opened before the target is
and read afterwards. -/
def copyUnder (store : BlobStore) (refusals : Refusals)
    (container blob fromContainer fromBlob : String) (cancellation : Cancellation)
    (tree : FileTree) : Except MigrationError Nat × FileTree :=
  match store.blobPath fromContainer fromBlob with
  | .error error => (.error error, tree)
  | .ok source =>
      match Refusals.open? refusals.source? (tree.lookUp true source) with
      | .error error =>
          (.error (.uploadFailed fromContainer fromBlob (sourceUnavailable error)), tree)
      | .ok (place, _) =>
          let outcome :=
            store.uploadUnder refusals container blob (.fileAt place) cancellation tree
          (outcome.result, outcome.tree)

/-! ## Where nothing is refused -/

def openTarget (store : BlobStore) (container blob : String) (path : FilePath)
    (tree : FileTree) : Except MigrationError Location × FileTree :=
  store.openTargetUnder .nothing container blob path tree

def fill (path : FilePath) (target : Location) (content : Content)
    (cancellation : Cancellation) (tree : FileTree) : UploadOutcome :=
  fillUnder .nothing path target content cancellation tree

def upload (store : BlobStore) (container blob : String) (content : Content)
    (cancellation : Cancellation) (tree : FileTree) : UploadOutcome :=
  store.uploadUnder .nothing container blob content cancellation tree

def copy (store : BlobStore) (container blob fromContainer fromBlob : String)
    (cancellation : Cancellation) (tree : FileTree) : Except MigrationError Nat × FileTree :=
  store.copyUnder .nothing container blob fromContainer fromBlob cancellation tree

theorem openTarget_def (store : BlobStore) (container blob : String) (path : FilePath)
    (tree : FileTree) :
    store.openTarget container blob path tree =
      match tree.makeParent path with
      | (.error error, tree) => (.error (.io error), tree)
      | (.ok (), tree) =>
          match if store.overwrite then tree.createOrTruncate path else tree.createNew path with
          | .ok (place, tree) => (.ok place, tree)
          | .error .alreadyExists => (.error (.blobExists container blob), tree)
          | .error error => (.error (.uploadFailed container blob error.message), tree) := by
  simp only [openTarget, openTargetUnder, Refusals.nothing, Refusals.open?_nothing]

theorem fill_def (path : FilePath) (target : Location) (content : Content)
    (cancellation : Cancellation) (tree : FileTree) :
    fill path target content cancellation tree =
      let reading := content.read tree
      let transfer := transfer cancellation reading.failure? reading.reads 1 0
      let written := tree.put target (.file transfer.moved)
      match transfer.result with
      | .ok count => ⟨.ok count, transfer.progress, written⟩
      | .error error => ⟨.error error, transfer.progress, written.removeFile path⟩ := by
  rw [fill, fillUnder, Refusals.read_nothing]
  rfl

@[simp] theorem progress_fill (path : FilePath) (target : Location) (content : Content)
    (cancellation : Cancellation) (tree : FileTree) :
    (fill path target content cancellation tree).progress =
      (transfer cancellation (content.read tree).failure? (content.read tree).reads 1
        0).progress := by
  rw [fill_def]
  dsimp only
  split <;> rfl

@[simp] theorem result_fill (path : FilePath) (target : Location) (content : Content)
    (cancellation : Cancellation) (tree : FileTree) :
    (fill path target content cancellation tree).result =
      (transfer cancellation (content.read tree).failure? (content.read tree).reads 1
        0).result := by
  rw [fill_def]
  dsimp only
  split <;> simp [*]

theorem upload_def (store : BlobStore) (container blob : String) (content : Content)
    (cancellation : Cancellation) (tree : FileTree) :
    store.upload container blob content cancellation tree =
      if cancellation.foundAt 0 0 then ⟨.error .cancelled, [], tree⟩
      else
        match store.blobPath container blob with
        | .error error => ⟨.error error, [], tree⟩
        | .ok path =>
            match store.openTarget container blob path tree with
            | (.error error, tree) => ⟨.error error, [], tree⟩
            | (.ok target, tree) => fill path target content cancellation tree :=
  rfl

theorem copy_def (store : BlobStore) (container blob fromContainer fromBlob : String)
    (cancellation : Cancellation) (tree : FileTree) :
    store.copy container blob fromContainer fromBlob cancellation tree =
      match store.blobPath fromContainer fromBlob with
      | .error error => (.error error, tree)
      | .ok source =>
          match tree.lookUp true source with
          | .error error =>
              (.error (.uploadFailed fromContainer fromBlob (sourceUnavailable error)), tree)
          | .ok (place, _) =>
              let outcome := store.upload container blob (.fileAt place) cancellation tree
              (outcome.result, outcome.tree) := by
  simp only [copy, copyUnder, Refusals.nothing, Refusals.open?_nothing]
  rfl

end BlobStore

end MediaMigration
