import MediaMigration.Migration.Run
import MediaMigration.Proofs.BlobStore.NewBlobs

/-!
# Attempting units in order

The report of a unit is what its step says on the session that the units before it have
left, and the units behind it go on from the session that it leaves. So what every step
does, all steps together do: a relation that each step respects holds from the first session to
the last, and blobs that are files of their own after one unit are files of their own among the
blobs of all units. A migration is three such attempts, one for each kind of unit.
-/

namespace MediaMigration

open FileTree BlobStore

/-- What an outcome stands for, and nothing if it is a failure. -/
def blobsOfOutcome {β : Type} (blobsOf : β → List (String × String)) :
    Except MigrationError β → List (String × String)
  | .ok value => blobsOf value
  | .error _ => []

namespace Migration

variable {α β : Type} {migration : Migration} {name : α → String}
  {step : α → Session → Except MigrationError β × Session}

/-- The session that the first units leave to the next one, which has found it not
cancelled. -/
def sessionBefore (migration : Migration) (name : α → String)
    (step : α → Session → Except MigrationError β × Session) (units : List α) (count : Nat)
    (session : Session) : Session :=
  (migration.attempt name step (units.take count) session).2.looked migration.cancelAfter?

theorem attempt_cons_of_not_cancelled {unit : α} {rest : List α} {session : Session}
    (h : session.isCancelled migration.cancelAfter? = false) :
    migration.attempt name step (unit :: rest) session =
      let (outcome, middle) := step unit (session.looked migration.cancelAfter?)
      let ((reports, skipped), last) := migration.attempt name step rest middle
      ((⟨name unit, outcome⟩ :: reports, skipped), last) := by
  simp only [attempt, h, Bool.false_eq_true, if_false]

theorem attempt_cons_of_never (hnever : migration.cancelAfter? = none) (unit : α) (rest : List α)
    (session : Session) :
    migration.attempt name step (unit :: rest) session =
      let first := step unit (session.looked migration.cancelAfter?)
      let others := migration.attempt name step rest first.2
      ((⟨name unit, first.1⟩ :: others.1.1, others.1.2), others.2) := by
  apply attempt_cons_of_not_cancelled
  rw [hnever]
  rfl

/-- The report of this number is what the step of the unit of this number said, and what
the unit has left is where the units behind it went on. -/
theorem attempt_entry {units : List α} {session : Session} {index : Nat}
    {report : UnitReport β}
    (h : (migration.attempt name step units session).1.1[index]? = some report) :
    ∃ unit, units[index]? = some unit ∧ report.unit = name unit ∧
      report.outcome =
        (step unit (migration.sessionBefore name step units index session)).1 ∧
      (migration.attempt name step units session).2 =
        (migration.attempt name step (units.drop (index + 1))
          (step unit (migration.sessionBefore name step units index session)).2).2 := by
  induction units generalizing session index with
  | nil => simp [attempt] at h
  | cons unit rest ih =>
      cases hcancel : session.isCancelled migration.cancelAfter? with
      | true => simp [attempt, hcancel] at h
      | false =>
          cases index with
          | zero =>
              rw [attempt_cons_of_not_cancelled hcancel] at h ⊢
              simp only [List.getElem?_cons_zero, Option.some.injEq] at h
              subst h
              exact ⟨unit, rfl, rfl, rfl, rfl⟩
          | succ index =>
              rw [attempt_cons_of_not_cancelled hcancel] at h
              simp only [List.getElem?_cons_succ] at h
              obtain ⟨next, hnext, hname, houtcome, hlast⟩ := ih h
              refine ⟨next, by simpa using hnext, hname, ?_, ?_⟩
              · rw [houtcome, sessionBefore, sessionBefore, List.take_succ_cons,
                  attempt_cons_of_not_cancelled hcancel]
              · rw [attempt_cons_of_not_cancelled hcancel, List.drop_succ_cons, hlast,
                  sessionBefore, sessionBefore, List.take_succ_cons,
                  attempt_cons_of_not_cancelled hcancel]

theorem attempt_newBlobs {store : BlobStore} {blobsOf : β → List (String × String)}
    (hstep : ∀ unit session, NewBlobs store session.tree (step unit session).2.tree
      (blobsOfOutcome blobsOf (step unit session).1)) (units : List α) (session : Session) :
    NewBlobs store session.tree (migration.attempt name step units session).2.tree
      ((migration.attempt name step units session).1.1.flatMap fun report =>
        blobsOfOutcome blobsOf report.outcome) := by
  induction units generalizing session with
  | nil => exact newBlobs_nil (.refl session.tree)
  | cons unit rest ih =>
      cases hcancel : session.isCancelled migration.cancelAfter? with
      | true =>
          simp only [attempt, hcancel, if_true]
          exact newBlobs_nil (.refl session.tree)
      | false =>
          rw [attempt_cons_of_not_cancelled hcancel]
          have hfirst := hstep unit (session.looked migration.cancelAfter?)
          rw [Session.tree_looked] at hfirst
          exact hfirst.append (ih _)

/-- What looks and the steps of all units keep holds after the last of them. -/
theorem attempt_invariant (invariant : Session → Prop) {units : List α}
    (hlooked : ∀ session, invariant session →
      invariant (session.looked migration.cancelAfter?))
    (hstep : ∀ unit ∈ units, ∀ session, invariant session → invariant (step unit session).2)
    {session : Session} (h : invariant session) :
    invariant (migration.attempt name step units session).2 := by
  induction units generalizing session with
  | nil => exact h
  | cons unit rest ih =>
      cases hcancel : session.isCancelled migration.cancelAfter? with
      | true =>
          simp only [attempt, hcancel, if_true]
          exact h
      | false =>
          rw [attempt_cons_of_not_cancelled hcancel]
          have hfirst := hstep unit List.mem_cons_self _ (hlooked session h)
          exact ih (fun other hother => hstep other (List.mem_cons_of_mem _ hother)) hfirst

/-- A relation between sessions that looks and steps respect holds from the first session to
the last. -/
theorem attempt_relates (relation : Session → Session → Prop)
    (hrefl : ∀ session, relation session session)
    (htrans : ∀ {first second third}, relation first second → relation second third →
      relation first third)
    (hlooked : ∀ session, relation session (session.looked migration.cancelAfter?))
    (hstep : ∀ unit session, relation session (step unit session).2) (units : List α)
    (session : Session) :
    relation session (migration.attempt name step units session).2 := by
  apply attempt_invariant (relation session)
  · intro middle hmiddle
    exact htrans hmiddle (hlooked middle)
  · intro unit _ middle hmiddle
    exact htrans hmiddle (hstep unit middle)
  · exact hrefl session

/-! ## A whole migration -/

/-- A migration attempts its containers, then its assets, then its keys, and ends behind the kind in
which it was found cancelled. -/
theorem execute_eq (migration : Migration) (mode : Mode) (manifest : Manifest)
    (session : Session) :
    migration.execute mode manifest session =
      let containers := migration.attempt Container.name (migration.migrateContainer mode)
        manifest.containers session
      let assets := migration.attempt (fun entry : AssetEntry => entry.asset.name)
        (migration.migrateAsset mode manifest) manifest.assets containers.2
      let keys := migration.attempt (fun key : ContentKey => key.id.toString) migration.mapKey
        manifest.keys assets.2
      if containers.1.2 then (⟨containers.1.1, [], [], true⟩, containers.2)
      else if assets.1.2 then (⟨containers.1.1, assets.1.1, [], true⟩, assets.2)
      else (⟨containers.1.1, assets.1.1, keys.1.1, keys.1.2⟩, keys.2) :=
  rfl

theorem containers_execute (migration : Migration) (mode : Mode) (manifest : Manifest)
    (session : Session) :
    (migration.execute mode manifest session).1.containers =
      (migration.attempt Container.name (migration.migrateContainer mode) manifest.containers
        session).1.1 := by
  simp only [execute_eq]
  split
  · rfl
  · split <;> rfl

theorem assets_execute (migration : Migration) (mode : Mode) (manifest : Manifest)
    (session : Session) :
    (migration.execute mode manifest session).1.assets = [] ∨
      (migration.execute mode manifest session).1.assets =
        (migration.attempt (fun entry : AssetEntry => entry.asset.name)
          (migration.migrateAsset mode manifest) manifest.assets
          (migration.attempt Container.name (migration.migrateContainer mode) manifest.containers
            session).2).1.1 := by
  simp only [execute_eq]
  split
  · exact .inl rfl
  · right
    split <;> rfl

theorem keys_execute (migration : Migration) (mode : Mode) (manifest : Manifest)
    (session : Session) :
    (migration.execute mode manifest session).1.keys = [] ∨
      ∃ middle, (migration.execute mode manifest session).1.keys =
        (migration.attempt (fun key : ContentKey => key.id.toString) migration.mapKey
          manifest.keys middle).1.1 := by
  simp only [execute_eq]
  split
  · exact .inl rfl
  · split
    · exact .inl rfl
    · exact .inr ⟨_, rfl⟩

end Migration

end MediaMigration
