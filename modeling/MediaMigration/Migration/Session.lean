import MediaMigration.BlobStore.Listing
import MediaMigration.BlobStore.Upload
import MediaMigration.Template.Mapper

/-!
# Sessions

While a migration runs, the tree of files changes, the mapper remembers templates, and the
calls made on the blob store are kept in order, each with how it ended and the tree that it
left. A migration may be cancelled after a number of calls that write to the store, whether
these succeeded or not, or some time later: the moment is told by how often the token is
looked at before it is found cancelled.
-/

namespace MediaMigration

inductive StoreCall where
  | upload (container blob : String)
  | copy (container blob fromContainer fromBlob : String)
  | list (container : String)
deriving DecidableEq, Repr

def StoreCall.writes : StoreCall → Bool
  | upload _ _ => true
  | copy _ _ _ _ => true
  | list _ => false

structure LoggedCall where
  call : StoreCall
  failure? : Option MigrationError
  tree : FileTree

/-- The state of a running migration. Once the writing calls after which it is cancelled
have returned, `spareLooks` more looks find the token not cancelled yet. -/
structure Session where
  tree : FileTree
  mapper : Mapper := .new
  log : List LoggedCall := []
  spareLooks : Nat := 0

namespace Session

def calls (session : Session) : List StoreCall :=
  session.log.map LoggedCall.call

def writeCalls (session : Session) : Nat :=
  session.calls.countP StoreCall.writes

/-- Is the migration found cancelled, if it is to be after so many writing calls? -/
def isCancelled (session : Session) (cancelAfter? : Option Nat) : Bool :=
  match cancelAfter? with
  | none => false
  | some count =>
      count < session.writeCalls || (count == session.writeCalls && session.spareLooks == 0)

def looked (session : Session) (cancelAfter? : Option Nat) : Session :=
  if cancelAfter? = some session.writeCalls then
    { session with spareLooks := session.spareLooks - 1 }
  else session

@[simp] theorem tree_looked (session : Session) (cancelAfter? : Option Nat) :
    (session.looked cancelAfter?).tree = session.tree := by
  unfold looked
  split <;> rfl

@[simp] theorem log_looked (session : Session) (cancelAfter? : Option Nat) :
    (session.looked cancelAfter?).log = session.log := by
  unfold looked
  split <;> rfl

/-- What a call that starts now sees of the cancellation. -/
def cancellation (session : Session) (cancelAfter? : Option Nat) : Cancellation :=
  match cancelAfter? with
  | none => .never
  | some count =>
      if count < session.writeCalls then .beforehand
      else if count = session.writeCalls then .atLook session.spareLooks
      else .never

def returned {α : Type} (session : Session) (call : StoreCall)
    (result : Except MigrationError α) (tree : FileTree) : Except MigrationError α × Session :=
  let failure? :=
    match result with
    | .ok _ => none
    | .error error => some error
  (result, { session with tree, log := session.log ++ [⟨call, failure?, tree⟩] })

@[simp] theorem calls_returned {α : Type} (session : Session) (call : StoreCall)
    (result : Except MigrationError α) (tree : FileTree) :
    (session.returned call result tree).2.calls = session.calls ++ [call] := by
  simp [calls, returned]

@[simp] theorem writeCalls_returned {α : Type} (session : Session) (call : StoreCall)
    (result : Except MigrationError α) (tree : FileTree) :
    (session.returned call result tree).2.writeCalls =
      session.writeCalls + if call.writes then 1 else 0 := by
  simp [writeCalls, List.countP_cons]

def upload (session : Session) (store : BlobStore) (cancelAfter? : Option Nat)
    (container blob : String) (content : Content) : Except MigrationError Nat × Session :=
  let outcome :=
    store.upload container blob content (session.cancellation cancelAfter?) session.tree
  session.returned (.upload container blob) outcome.result outcome.tree

def copy (session : Session) (store : BlobStore) (cancelAfter? : Option Nat)
    (container blob fromContainer fromBlob : String) : Except MigrationError Nat × Session :=
  let (result, tree) :=
    store.copy container blob fromContainer fromBlob (session.cancellation cancelAfter?)
      session.tree
  session.returned (.copy container blob fromContainer fromBlob) result tree

def list (session : Session) (store : BlobStore) (container : String) :
    Except MigrationError (List String) × Session :=
  session.returned (.list container) (store.list container session.tree) session.tree

end Session

end MediaMigration
