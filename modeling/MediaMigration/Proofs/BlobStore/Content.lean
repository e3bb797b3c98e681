import MediaMigration.BlobStore.Upload
import MediaMigration.Proofs.FileTree.Growth

/-!
# What a transfer moves

A content is cut into reads for the buffer only: the reads of a file together are the file.
A transfer that comes to its end has met no failure and has moved every read, in their
order, and what it reports last is the number of the bytes moved.
-/

namespace MediaMigration

namespace Content

theorem flatten_cutWithin {size : Nat} (hsize : 0 < size) {fuel : Nat} {bytes : Bytes}
    (hfuel : bytes.length ≤ fuel) : (cutWithin size fuel bytes).flatten = bytes := by
  induction fuel generalizing bytes with
  | zero =>
      have hnil : bytes = [] := List.length_eq_zero_iff.mp (by omega)
      rw [hnil]
      rfl
  | succ fuel ih =>
      cases bytes with
      | nil => rfl
      | cons byte rest =>
          have hrest : ((byte :: rest).drop size).length ≤ fuel := by
            rw [List.length_drop]
            omega
          rw [cutWithin, List.flatten_cons, ih hrest, List.take_append_drop]
          simp

@[simp] theorem flatten_cutToBuffer (bytes : Bytes) : (cutToBuffer bytes).flatten = bytes :=
  flatten_cutWithin (by decide) (Nat.le_refl _)

def Yields (content : Content) (tree : FileTree) (bytes : Bytes) : Prop :=
  (content.read tree).failure? = none ∧ (content.read tree).reads.flatten = bytes

theorem yields_file_iff {tree : FileTree} {place : Location} {content bytes : Bytes}
    (h : tree.entryAt place = some (.file content)) :
    (fileAt place).Yields tree bytes ↔ content = bytes := by
  simp [Yields, read, h]

theorem not_yields_directory {tree : FileTree} {place : Location} {bytes : Bytes}
    (h : tree.entryAt place = some .directory) : ¬ (fileAt place).Yields tree bytes := by
  simp [Yields, read, h]

end Content

namespace BlobStore

theorem transfer_ok {cancellation : Cancellation} {failure? : Option IoError}
    {reads : List Bytes} {look written count : Nat}
    (h : (transfer cancellation failure? reads look written).result = .ok count) :
    failure? = none ∧
      (transfer cancellation failure? reads look written).moved = reads.flatten ∧
      count = written + reads.flatten.length := by
  induction reads generalizing look written with
  | nil =>
      unfold transfer at h ⊢
      by_cases hfound : cancellation.foundAt look written
      · rw [if_pos hfound] at h
        exact absurd h (by simp)
      · rw [if_neg hfound] at h ⊢
        cases failure? with
        | some error => exact absurd h (by simp)
        | none =>
            simp only [Except.ok.injEq] at h
            exact ⟨rfl, rfl, by simp [h]⟩
  | cons chunk rest ih =>
      unfold transfer at h ⊢
      by_cases hfound : cancellation.foundAt look written
      · rw [if_pos hfound] at h
        exact absurd h (by simp)
      · rw [if_neg hfound] at h ⊢
        obtain ⟨hfailure, hmoved, hcount⟩ := ih h
        refine ⟨hfailure, ?_, ?_⟩
        · simp only [hmoved, List.flatten_cons]
        · rw [hcount, List.flatten_cons, List.length_append]
          omega

end BlobStore

end MediaMigration
