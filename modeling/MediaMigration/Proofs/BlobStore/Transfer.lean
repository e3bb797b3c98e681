import Mathlib.Data.List.Infix
import MediaMigration.Proofs.BlobStore.Overwriting
import MediaMigration.Proofs.FileTree.Removal

/-!
# What an upload moves and reports

Chunks are read up to the first empty one, each in pieces of a buffer's length. After each read
the bytes written so far are reported, and a report may cancel the upload. What is reported, how
the upload ends and what it leaves at the target are all told by the running sums of the reads:
the first sum that cancels is the last one reported, and only when there is none does a failure or
the end of the content count. An upload that fails leaves nothing at the path of its target.
-/

namespace MediaMigration

namespace Content

/-! ## Reads -/

theorem mem_cutWithin {size fuel : Nat} {bytes piece : Bytes} (hsize : 0 < size)
    (h : piece ∈ cutWithin size fuel bytes) : piece ≠ [] ∧ piece.length ≤ size := by
  induction fuel generalizing bytes with
  | zero => simp [cutWithin] at h
  | succ fuel ih =>
      cases bytes with
      | nil => simp [cutWithin] at h
      | cons byte rest =>
          simp only [cutWithin, List.mem_cons] at h
          rcases h with rfl | hrest
          · obtain ⟨less, rfl⟩ := Nat.exists_eq_succ_of_ne_zero (Nat.ne_of_gt hsize)
            exact ⟨by simp, List.length_take_le _ _⟩
          · exact ih hrest

theorem mem_cutToBuffer {bytes piece : Bytes} (h : piece ∈ cutToBuffer bytes) :
    piece ≠ [] ∧ piece.length ≤ bufferSize :=
  mem_cutWithin (by decide) h

def readsOf (pieces : List Bytes) : List Bytes :=
  (pieces.takeWhile (· ≠ [])).flatMap cutToBuffer

theorem readChunks_eq (pieces : List Bytes) (failure? : Option IoError) :
    readChunks pieces failure? = ⟨readsOf pieces, if [] ∈ pieces then none else failure?⟩ := by
  induction pieces with
  | nil => rfl
  | cons piece rest ih =>
      cases piece with
      | nil => rfl
      | cons byte bytes =>
          rw [readChunks, ih]
          · simp [readsOf]
          · simp

theorem mem_readsOf {pieces : List Bytes} {read : Bytes} (h : read ∈ readsOf pieces) :
    read ≠ [] ∧ read.length ≤ bufferSize := by
  obtain ⟨piece, _, hread⟩ := List.mem_flatMap.mp h
  exact mem_cutToBuffer hread

theorem flatten_readsOf (pieces : List Bytes) :
    (readsOf pieces).flatten = (pieces.takeWhile (· ≠ [])).flatten := by
  rw [readsOf]
  induction pieces.takeWhile (· ≠ []) with
  | nil => rfl
  | cons piece rest ih =>
      rw [List.flatMap_cons, List.flatten_append, ih, flatten_cutToBuffer, List.flatten_cons]

end Content

namespace BlobStore

open FileTree

/-! ## Reports -/

/-- The numbers of bytes after each of a row of reads, counted on from a number. -/
def runningSums : Nat → List Bytes → List Nat
  | _, [] => []
  | before, read :: rest =>
      (before + read.length) :: runningSums (before + read.length) rest

theorem getLastD_runningSums (before : Nat) (reads : List Bytes) :
    (runningSums before reads).getLastD before = before + reads.flatten.length := by
  induction reads generalizing before with
  | nil => rfl
  | cons read rest ih =>
      rw [runningSums, List.getLastD_cons, ih, List.flatten_cons, List.length_append]
      omega

/-- The reports of sums up to the first that cancels. -/
def reportsUpTo (count : Nat) (sums : List Nat) : List Nat :=
  sums.takeWhile (· < count) ++ (sums.dropWhile (· < count)).take 1

variable {cancellation : Cancellation} {failure? : Option IoError} {reads : List Bytes}
  {look written count : Nat}

theorem transfer_found (h : cancellation.foundAt look written = true) :
    transfer cancellation failure? reads look written = ⟨.error .cancelled, [], []⟩ := by
  cases reads <;> simp only [transfer, h, if_true]

theorem transfer_nil (h : cancellation.foundAt look written = false) :
    transfer cancellation failure? [] look written =
      ⟨failure?.elim (.ok written) fun error => .error (.io error), [], []⟩ := by
  cases failure? <;> simp only [transfer, h, Bool.false_eq_true, if_false, Option.elim]

theorem transfer_cons (read : Bytes) (h : cancellation.foundAt look written = false) :
    transfer cancellation failure? (read :: reads) look written =
      let next := transfer cancellation failure? reads (look + 1) (written + read.length)
      ⟨next.result, (written + read.length) :: next.progress, read ++ next.moved⟩ := by
  simp only [transfer, h, Bool.false_eq_true, if_false]

theorem foundAt_atBytes_next (hlook : 1 ≤ look) (count written : Nat) :
    (Cancellation.atBytes count).foundAt (look + 1) written = decide (count ≤ written) := by
  have hnext : 2 ≤ look + 1 := by omega
  simp [Cancellation.foundAt, hnext]

theorem progress_transfer (hlook : 1 ≤ look)
    (h : (Cancellation.atBytes count).foundAt look written = false) :
    (transfer (.atBytes count) failure? reads look written).progress =
      reportsUpTo count (runningSums written reads) := by
  induction reads generalizing look written with
  | nil =>
      rw [transfer_nil h]
      rfl
  | cons read rest ih =>
      rw [transfer_cons read h, runningSums, reportsUpTo]
      have hnext := foundAt_atBytes_next hlook count (written + read.length)
      by_cases hreached : count ≤ written + read.length
      · rw [transfer_found (hnext.trans (decide_eq_true hreached))]
        have hnot : ¬ written + read.length < count := Nat.not_lt.mpr hreached
        simp [hnot]
      · have hbelow : written + read.length < count := Nat.not_le.mp hreached
        simp only [ih (Nat.le_add_left 1 look) (hnext.trans (decide_eq_false hreached)),
          reportsUpTo, hbelow, List.takeWhile_cons, List.dropWhile_cons, decide_true, if_true,
          List.cons_append]

theorem result_transfer (hlook : 1 ≤ look)
    (h : (Cancellation.atBytes count).foundAt look written = false) :
    (transfer (.atBytes count) failure? reads look written).result =
      if ∃ sum ∈ runningSums written reads, count ≤ sum then .error .cancelled
      else
        failure?.elim (.ok ((runningSums written reads).getLastD written)) fun error =>
          .error (.io error) := by
  induction reads generalizing look written with
  | nil =>
      rw [transfer_nil h, if_neg (by simp [runningSums])]
      rfl
  | cons read rest ih =>
      rw [transfer_cons read h, runningSums]
      have hnext := foundAt_atBytes_next hlook count (written + read.length)
      by_cases hreached : count ≤ written + read.length
      · rw [transfer_found (hnext.trans (decide_eq_true hreached)),
          if_pos ⟨_, List.mem_cons_self, hreached⟩]
      · simp only [ih (Nat.le_add_left 1 look) (hnext.trans (decide_eq_false hreached)),
          List.mem_cons, exists_eq_or_imp, hreached, false_or, List.getLastD_cons]

theorem moved_isPrefix (cancellation : Cancellation) (failure? : Option IoError)
    (reads : List Bytes) (look written : Nat) :
    (transfer cancellation failure? reads look written).moved <+: reads.flatten := by
  induction reads generalizing look written with
  | nil =>
      cases h : cancellation.foundAt look written with
      | true => rw [transfer_found h]; exact List.nil_prefix
      | false => rw [transfer_nil h]; exact List.nil_prefix
  | cons read rest ih =>
      cases h : cancellation.foundAt look written with
      | true => rw [transfer_found h]; exact List.nil_prefix
      | false =>
          rw [transfer_cons read h, List.flatten_cons]
          exact (List.prefix_append_right_inj read).mpr (ih _ _)

/-! ## Targets of uploads that fail -/

variable {store : BlobStore} {container blob : String} {path : FilePath} {content : Content}
  {place : Location} {base tree opened : FileTree}

/-- With a name that is accepted and a target that can be opened, an upload fills the target. -/
theorem upload_eq_fill (hnow : cancellation.foundAt 0 0 = false)
    (hpath : store.blobPath container blob = .ok path)
    (hopen : store.openTarget container blob path tree = (.ok place, opened)) :
    store.upload container blob content cancellation tree =
      fill path place content cancellation opened := by
  rw [upload_def, if_neg (by simp [hnow])]
  simp only [hpath, hopen]

theorem openTarget_ok (h : store.openTarget container blob path tree = (.ok place, opened)) :
    (tree.makeParent path).2.IsWritable path place ∧
      opened = (tree.makeParent path).2.put place (.file []) := by
  rcases openTarget_cases store container blob path tree with
    ⟨error, hfailed⟩ | ⟨other, hwritable, _, hopened⟩
  · rw [h] at hfailed
    exact absurd hfailed (by simp)
  · rw [h, Prod.mk.injEq, Except.ok.injEq] at hopened
    obtain ⟨rfl, rfl⟩ := hopened
    exact ⟨hwritable, rfl⟩

/-- An upload that fails once its target was opened has written a front part of its content. -/
theorem fillUnder_error {refusals : Refusals} {error : MigrationError}
    (h : (fillUnder refusals path place content cancellation tree).result = .error error) :
    ∃ bytes, bytes <+: (content.read tree).reads.flatten ∧
      (fillUnder refusals path place content cancellation tree).tree =
        if refusals.removal place then tree.put place (.file bytes)
        else (tree.put place (.file bytes)).removeFile path := by
  unfold fillUnder at h ⊢
  simp only at h ⊢
  split at h
  · exact absurd h (by simp)
  · have hreads := (Reading.cutOff_isPrefix _ (refusals.writing? place)).trans
      (refusals.read_isPrefix tree content)
    exact ⟨_, (moved_isPrefix _ _ _ _ _).trans hreads.flatten, rfl⟩

theorem fill_error_removes {error : MigrationError}
    (h : (fill path place content cancellation (base.put place (.file []))).result =
      .error error) :
    ∃ bytes, (fill path place content cancellation (base.put place (.file []))).tree =
      (base.put place (.file bytes)).removeFile path := by
  rw [fill] at h ⊢
  obtain ⟨bytes, _, htree⟩ := fillUnder_error h
  rw [put_put] at htree
  exact ⟨bytes, htree⟩

theorem fileOf?_of_fill_error {error : MigrationError} (hwritable : base.IsWritable path place)
    (h : (fill path place content cancellation (base.put place (.file []))).result =
      .error error) :
    (fill path place content cancellation (base.put place (.file []))).tree.fileOf? path =
      none := by
  obtain ⟨bytes, hremoved⟩ := fill_error_removes h
  rw [hremoved]
  exact fileOf?_removeFile (hwritable.lookUp_put bytes)

/-- What the path of the target names is gone after a failure: the file that was opened, or a
link that leads to it. -/
theorem named_gone_of_fill_error {error : MigrationError} (hwritable : base.IsWritable path place)
    (h : (fill path place content cancellation (base.put place (.file []))).result =
      .error error) :
    ∃ dir name,
      (base.put place (.file [])).resolve (.write false) path = .ok (.child dir name, false) ∧
      (dir ++ [name] = place ∨ (base.put place (.file [])).LinksTo dir name place) ∧
      (fill path place content cancellation (base.put place (.file []))).tree.entryAt
        (dir ++ [name]) = none := by
  obtain ⟨bytes, hremoved⟩ := fill_error_removes h
  obtain ⟨dir, name, hnamed, _, hplace⟩ := removeFile_eq_erase (hwritable.lookUp_put [])
  obtain ⟨_, _, hlater, herase, _⟩ := removeFile_eq_erase (hwritable.lookUp_put bytes)
  have hempty : (base.put place (.file [])).entryAt place = some (.file []) := by
    rw [hwritable.entryAt_put, if_pos rfl]
  -- the ways are the same, whatever the file holds
  have hkeeps : KeepsWays (base.put place (.file []))
      ((base.put place (.file [])).put place (.file bytes)) :=
    keepsWays_put hwritable.ne_root (by simp [hempty]) (by simp [hempty]) (by simp)
  rw [put_put] at hkeeps
  cases (hkeeps.resolve_eq hnamed).symm.trans hlater
  refine ⟨dir, name, hnamed, hplace, ?_⟩
  rw [hremoved, herase, entryAt_erase _ (by simp), if_pos rfl]

/-! ## Uploads of chunks -/

/-- An upload of chunks to a target that could be opened, cancelled as soon as a report reaches a
number of bytes. -/
theorem upload_moves_content (hpath : store.blobPath container blob = .ok path)
    (hopen : store.openTarget container blob path tree = (.ok place, opened))
    (pieces : List Bytes) (failure? : Option IoError) (count : Nat) :
    let reads := Content.readsOf pieces
    let sums := runningSums 0 reads
    let outcome := store.upload container blob (.chunks pieces failure?) (.atBytes count) tree
    (∀ read ∈ reads, read ≠ [] ∧ read.length ≤ 65536) ∧
      reads.flatten = (pieces.takeWhile (· ≠ [])).flatten ∧
      outcome.progress = reportsUpTo count sums ∧
      (outcome.result = .error .cancelled ↔ ∃ sum ∈ sums, count ≤ sum) ∧
      ((∀ sum ∈ sums, sum < count) →
        (∀ error, [] ∉ pieces → failure? = some error → outcome.result = .error (.io error)) ∧
        ([] ∈ pieces ∨ failure? = none →
          outcome.result = .ok (sums.getLastD 0) ∧ sums.getLastD 0 = reads.flatten.length ∧
          outcome.tree.lookUp true path = .ok (place, .file reads.flatten))) ∧
      ∀ error, outcome.result = .error error → outcome.tree.fileOf? path = none ∧
        ∃ dir name, opened.resolve (.write false) path = .ok (.child dir name, false) ∧
          (dir ++ [name] = place ∨ opened.LinksTo dir name place) ∧
          outcome.tree.entryAt (dir ++ [name]) = none := by
  intro reads sums outcome
  have hnow : (Cancellation.atBytes count).foundAt 0 0 = false := by simp [Cancellation.foundAt]
  have hfirst : (Cancellation.atBytes count).foundAt 1 0 = false := by
    simp [Cancellation.foundAt]
  have houtcome : outcome = fill path place (.chunks pieces failure?) (.atBytes count) opened :=
    upload_eq_fill hnow hpath hopen
  obtain ⟨hwritable, rfl⟩ := openTarget_ok hopen
  have hread : ∀ tree, (Content.chunks pieces failure?).read tree =
      ⟨reads, if [] ∈ pieces then none else failure?⟩ :=
    fun _ => Content.readChunks_eq pieces failure?
  have hprogress : outcome.progress = reportsUpTo count sums := by
    rw [houtcome, progress_fill, hread, progress_transfer (Nat.le_refl 1) hfirst]
  have hresult : outcome.result =
      if ∃ sum ∈ sums, count ≤ sum then .error .cancelled
      else
        (if [] ∈ pieces then none else failure?).elim (.ok (sums.getLastD 0)) fun error =>
          .error (.io error) := by
    rw [houtcome, result_fill, hread, result_transfer (Nat.le_refl 1) hfirst]
  refine ⟨fun read hmem => Content.mem_readsOf hmem, Content.flatten_readsOf pieces, hprogress,
    ?_, ?_, ?_⟩
  · rw [hresult]
    split
    · simp [*]
    · cases h : (if [] ∈ pieces then none else failure?) <;> simp [*]
  · intro hbelow
    have hnever : ¬ ∃ sum ∈ sums, count ≤ sum := by
      rintro ⟨sum, hmem, hreached⟩
      exact absurd (hbelow sum hmem) (Nat.not_lt.mpr hreached)
    rw [if_neg hnever] at hresult
    refine ⟨fun error hnone hfailure => ?_, fun hend => ?_⟩
    · rw [hresult, if_neg hnone, hfailure, Option.elim]
    · have hfailure : (if [] ∈ pieces then none else failure?) = none := by
        rcases hend with hempty | hnone
        · rw [if_pos hempty]
        · rw [hnone, ite_self]
      rw [hfailure, Option.elim] at hresult
      have hlength : sums.getLastD 0 = reads.flatten.length := by
        simpa using getLastD_runningSums 0 reads
      refine ⟨hresult, hlength, ?_⟩
      rw [houtcome] at hresult ⊢
      obtain ⟨bytes, ⟨_, hbytes⟩, _, htree⟩ := fill_ok hresult
      rw [hread] at hbytes
      rw [htree, ← hbytes]
      exact hwritable.lookUp_put _
  · intro error herror
    rw [houtcome] at herror ⊢
    exact ⟨fileOf?_of_fill_error hwritable herror, named_gone_of_fill_error hwritable herror⟩

/-- Two chunks in front of an empty one replace a longer blob, and the failure behind is not met. -/
theorem upload_moves_content_before_empty :
    let store : BlobStore := ⟨⟨"store"⟩, true⟩
    let tree := ((FileTree.empty.put ["store"] .directory).put ["store", "c"] .directory).put
      ["store", "c", "b"] (.file [9, 9, 9, 9])
    let outcome := store.upload "c" "b" (.chunks [[1, 2], [3], [], [4]] (some .isDirectory))
      (.atBytes 4) tree
    store.blobPath "c" "b" = .ok ⟨"store/c/b"⟩ ∧
      (store.openTarget "c" "b" ⟨"store/c/b"⟩ tree).1 = .ok ["store", "c", "b"] ∧
      outcome.progress = [2, 3] ∧ outcome.result = .ok 3 ∧
      outcome.tree.lookUp true ⟨"store/c/b"⟩ = .ok (["store", "c", "b"], .file [1, 2, 3]) := by
  intro store tree outcome
  have hpath : store.blobPath "c" "b" = .ok ⟨"store/c/b"⟩ := by decide +kernel
  have hopen : (store.openTarget "c" "b" ⟨"store/c/b"⟩ tree).1 = .ok ["store", "c", "b"] := by
    decide +kernel
  obtain ⟨opened, hopened⟩ : ∃ opened, store.openTarget "c" "b" ⟨"store/c/b"⟩ tree =
      (.ok ["store", "c", "b"], opened) := by
    revert hopen
    generalize store.openTarget "c" "b" ⟨"store/c/b"⟩ tree = result
    exact fun hopen => ⟨result.2, Prod.ext hopen rfl⟩
  have hreads : Content.readsOf [[1, 2], [3], [], [4]] = [[1, 2], [3]] := by decide +kernel
  obtain ⟨_, _, hprogress, _, hends, _⟩ := upload_moves_content hpath hopened
    [[1, 2], [3], [], [4]] (some .isDirectory) 4
  rw [hreads] at hprogress hends
  obtain ⟨hresult, _, hfile⟩ := (hends (by decide)).2 (.inl (by decide))
  exact ⟨hpath, hopen, hprogress, hresult, hfile⟩

end BlobStore

end MediaMigration
