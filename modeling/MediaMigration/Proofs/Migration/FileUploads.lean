import MediaMigration.Migration.Run

/-!
# Uploading files in order

The files of an asset are uploaded one after the other, up to the first that fails. The first of
them cannot be found, or cannot be uploaded, or is uploaded and the others go on from there: what
holds of all uploads follows from these three cases by induction.
-/

namespace MediaMigration

namespace Migration

variable {migration : Migration} {placement : Placement} {file : CollectedFile}
  {files rest : List CollectedFile} {session after : Session} {place : Location} {entry : Entry}

theorem uploadFiles_of_lookUp_error {error : IoError}
    (h : session.tree.lookUp true file.path = .error error) :
    migration.uploadFiles placement (file :: rest) session = (.error (.io error), session) := by
  simp only [uploadFiles, h]

theorem uploadFiles_of_error {error : MigrationError}
    (hfound : session.tree.lookUp true file.path = .ok (place, entry))
    (h : session.upload migration.store migration.cancelAfter? placement.container
      (placement.blobName file.name) (.fileAt place) = (.error error, after)) :
    migration.uploadFiles placement (file :: rest) session = (.error error, after) := by
  simp only [uploadFiles, hfound, h]

theorem uploadFiles_of_ok {written : Nat}
    (hfound : session.tree.lookUp true file.path = .ok (place, entry))
    (h : session.upload migration.store migration.cancelAfter? placement.container
      (placement.blobName file.name) (.fileAt place) = (.ok written, after)) :
    migration.uploadFiles placement (file :: rest) session =
      ((migration.uploadFiles placement rest after).1.map (written + ·),
        (migration.uploadFiles placement rest after).2) := by
  simp only [uploadFiles, hfound, h]
  cases migration.uploadFiles placement rest after with
  | mk result last => cases result <;> rfl

theorem uploadFiles_cons_cases (migration : Migration) (placement : Placement)
    (file : CollectedFile) (rest : List CollectedFile) (session : Session) :
    (∃ error, session.tree.lookUp true file.path = .error error ∧
        migration.uploadFiles placement (file :: rest) session = (.error (.io error), session)) ∨
      ∃ place entry, session.tree.lookUp true file.path = .ok (place, entry) ∧
        ((∃ error after,
          session.upload migration.store migration.cancelAfter? placement.container
            (placement.blobName file.name) (.fileAt place) = (.error error, after) ∧
          migration.uploadFiles placement (file :: rest) session = (.error error, after)) ∨
        ∃ written after,
          session.upload migration.store migration.cancelAfter? placement.container
            (placement.blobName file.name) (.fileAt place) = (.ok written, after) ∧
          migration.uploadFiles placement (file :: rest) session =
            ((migration.uploadFiles placement rest after).1.map (written + ·),
              (migration.uploadFiles placement rest after).2)) := by
  cases hfound : session.tree.lookUp true file.path with
  | error error => exact .inl ⟨error, rfl, uploadFiles_of_lookUp_error hfound⟩
  | ok found =>
      obtain ⟨place, entry⟩ := found
      refine .inr ⟨place, entry, rfl, ?_⟩
      cases hupload : session.upload migration.store migration.cancelAfter? placement.container
          (placement.blobName file.name) (.fileAt place) with
      | mk result after =>
          cases result with
          | error error => exact .inl ⟨error, after, rfl, uploadFiles_of_error hfound hupload⟩
          | ok written => exact .inr ⟨written, after, rfl, uploadFiles_of_ok hfound hupload⟩

/-- What every upload of a file that was found keeps, the uploads of all files keep. -/
theorem uploadFiles_invariant (invariant : Session → Prop)
    (hupload : ∀ file ∈ files, ∀ (session : Session) place entry, invariant session →
      session.tree.lookUp true file.path = .ok (place, entry) →
      invariant (session.upload migration.store migration.cancelAfter? placement.container
        (placement.blobName file.name) (.fileAt place)).2)
    (h : invariant session) :
    invariant (migration.uploadFiles placement files session).2 := by
  induction files generalizing session with
  | nil => exact h
  | cons file rest ih =>
      have hrest := fun other hother => hupload other (List.mem_cons_of_mem _ hother)
      rcases migration.uploadFiles_cons_cases placement file rest session with
        ⟨error, _, hrun⟩ | ⟨place, entry, hfound, hcases⟩
      · rw [hrun]
        exact h
      · have hfirst := hupload file List.mem_cons_self session place entry h hfound
        rcases hcases with ⟨error, after, hafter, hrun⟩ | ⟨written, after, hafter, hrun⟩
        · rw [hafter] at hfirst
          rw [hrun]
          exact hfirst
        · rw [hafter] at hfirst
          rw [hrun]
          exact ih hrest hfirst

theorem uploadFiles_cons_ok {bytes : Nat} {later : Session}
    (h : migration.uploadFiles placement (file :: rest) session = (.ok bytes, later)) :
    ∃ source entry written middle others,
      session.tree.lookUp true file.path = .ok (source, entry) ∧
      session.upload migration.store migration.cancelAfter? placement.container
        (placement.blobName file.name) (.fileAt source) = (.ok written, middle) ∧
      migration.uploadFiles placement rest middle = (.ok others, later) ∧
      bytes = written + others := by
  rcases migration.uploadFiles_cons_cases placement file rest session with
    ⟨error, _, hrun⟩ | ⟨place, entry, hfound, hcases⟩
  · exact absurd (hrun.symm.trans h) (by simp)
  rcases hcases with ⟨error, after, _, hrun⟩ | ⟨written, after, hafter, hrun⟩
  · exact absurd (hrun.symm.trans h) (by simp)
  · rw [hrun] at h
    cases hrest : migration.uploadFiles placement rest after with
    | mk total last =>
        rw [hrest] at h
        cases total with
        | error error => exact absurd h (by simp [Except.map])
        | ok others =>
            simp only [Except.map, Prod.mk.injEq, Except.ok.injEq] at h
            obtain ⟨rfl, rfl⟩ := h
            exact ⟨place, entry, written, after, others, hfound, hafter, hrest, rfl⟩

end Migration

end MediaMigration
