import MediaMigration.Proofs.Migration.Attempt

/-!
# The units of a manifest as one list

A migration goes through containers, assets and keys, and may be found cancelled anywhere in
these three lists. Read as one list of units the three loops are a single one, and so are
their reports: what holds of attempting units in order holds of the whole migration. A
migration of this list counts its progress by the units attempted so far.
-/

namespace MediaMigration

inductive MigrationUnit where
  | container (container : Container)
  | asset (entry : AssetEntry)
  | key (key : ContentKey)
deriving DecidableEq, Repr

inductive UnitTarget where
  | container (copy : ContainerCopy)
  | asset (upload : AssetUpload)
  | key (mapping : KeyMapping)
deriving DecidableEq, Repr

def MigrationUnit.name : MigrationUnit → String
  | .container source => source.name
  | .asset entry => entry.asset.name
  | .key contentKey => contentKey.id.toString

def Manifest.units (manifest : Manifest) : List MigrationUnit :=
  manifest.containers.map .container ++ manifest.assets.map .asset ++ manifest.keys.map .key

def UnitReport.map {α β : Type} (f : α → β) (report : UnitReport α) : UnitReport β :=
  ⟨report.unit, report.outcome.map f⟩

def MigrationReport.units (report : MigrationReport) : List (UnitReport UnitTarget) :=
  report.containers.map (UnitReport.map .container) ++
    report.assets.map (UnitReport.map .asset) ++ report.keys.map (UnitReport.map .key)

namespace Migration

def migrateUnit (migration : Migration) (mode : Mode) (manifest : Manifest) :
    MigrationUnit → Session → Except MigrationError UnitTarget × Session
  | .container container, session =>
      let (outcome, session) := migration.migrateContainer mode container session
      (outcome.map .container, session)
  | .asset entry, session =>
      let (outcome, session) := migration.migrateAsset mode manifest entry session
      (outcome.map .asset, session)
  | .key key, session =>
      let (outcome, session) := migration.mapKey key session
      (outcome.map .key, session)

def attemptUnits (migration : Migration) (mode : Mode) (manifest : Manifest)
    (units : List MigrationUnit) (session : Session) :
    (List (UnitReport UnitTarget) × Bool) × Session :=
  migration.attempt MigrationUnit.name (migration.migrateUnit mode manifest) units session

/-- The session when so many units of the manifest have been attempted, or all that can be. -/
def sessionAfter (migration : Migration) (mode : Mode) (manifest : Manifest) (count : Nat)
    (session : Session) : Session :=
  (migration.attemptUnits mode manifest (manifest.units.take count) session).2

variable {α β γ δ : Type} {migration : Migration} {name : α → String}
  {step : α → Session → Except MigrationError β × Session}

theorem attempt_of_cancelled {units : List α} {session : Session}
    (h : session.isCancelled migration.cancelAfter? = true) :
    migration.attempt name step units session = (([], !units.isEmpty), session) := by
  cases units with
  | nil => rfl
  | cons unit rest => simp [attempt, h]

/-- Units in front of others are attempted first; where they skip a unit, the others are
skipped as well. -/
theorem attempt_append (first second : List α) (session : Session) :
    migration.attempt name step (first ++ second) session =
      let ((reports, skipped), middle) := migration.attempt name step first session
      if skipped then ((reports, true), middle)
      else
        let ((others, skipped), last) := migration.attempt name step second middle
        ((reports ++ others, skipped), last) := by
  induction first generalizing session with
  | nil => rfl
  | cons unit rest ih =>
      cases hcancel : session.isCancelled migration.cancelAfter? with
      | true =>
          rw [List.cons_append, attempt_of_cancelled hcancel, attempt_of_cancelled hcancel]
          rfl
      | false =>
          rw [List.cons_append, attempt_cons_of_not_cancelled hcancel,
            attempt_cons_of_not_cancelled hcancel]
          cases step unit (session.looked migration.cancelAfter?) with
          | mk outcome middle =>
              simp only [ih]
              cases migration.attempt name step rest middle with
              | mk found last =>
                  obtain ⟨reports, skipped⟩ := found
                  cases skipped <;> simp

theorem attempt_map {innerName : γ → String}
    {innerStep : γ → Session → Except MigrationError δ × Session} (wrap : γ → α) (f : δ → β)
    (hname : ∀ unit, name (wrap unit) = innerName unit)
    (hstep : ∀ unit session, step (wrap unit) session =
      ((innerStep unit session).1.map f, (innerStep unit session).2))
    (units : List γ) (session : Session) :
    migration.attempt name step (units.map wrap) session =
      let ((reports, skipped), last) := migration.attempt innerName innerStep units session
      ((reports.map (UnitReport.map f), skipped), last) := by
  induction units generalizing session with
  | nil => rfl
  | cons unit rest ih =>
      cases hcancel : session.isCancelled migration.cancelAfter? with
      | true =>
          rw [attempt_of_cancelled hcancel, attempt_of_cancelled hcancel]
          rfl
      | false =>
          rw [List.map_cons, attempt_cons_of_not_cancelled hcancel,
            attempt_cons_of_not_cancelled hcancel, hstep]
          simp only [ih, List.map_cons, UnitReport.map, hname]

variable {mode : Mode} {manifest : Manifest}

theorem attemptUnits_cons {session : Session}
    (h : session.isCancelled migration.cancelAfter? = false) (unit : MigrationUnit)
    (rest : List MigrationUnit) :
    migration.attemptUnits mode manifest (unit :: rest) session =
      let first :=
        migration.migrateUnit mode manifest unit (session.looked migration.cancelAfter?)
      let others := migration.attemptUnits mode manifest rest first.2
      ((⟨unit.name, first.1⟩ :: others.1.1, others.1.2), others.2) :=
  attempt_cons_of_not_cancelled h

theorem attemptUnits_containers (containers : List Container) (session : Session) :
    migration.attemptUnits mode manifest (containers.map .container) session =
      let ((reports, skipped), last) :=
        migration.attempt Container.name (migration.migrateContainer mode) containers session
      ((reports.map (UnitReport.map .container), skipped), last) := by
  unfold attemptUnits
  exact attempt_map MigrationUnit.container UnitTarget.container (fun _ => rfl)
    (fun _ _ => rfl) containers session

theorem attemptUnits_assets (assets : List AssetEntry) (session : Session) :
    migration.attemptUnits mode manifest (assets.map .asset) session =
      let ((reports, skipped), last) :=
        migration.attempt (fun entry : AssetEntry => entry.asset.name)
          (migration.migrateAsset mode manifest) assets session
      ((reports.map (UnitReport.map .asset), skipped), last) := by
  unfold attemptUnits
  exact attempt_map MigrationUnit.asset UnitTarget.asset (fun _ => rfl) (fun _ _ => rfl)
    assets session

theorem attemptUnits_keys (keys : List ContentKey) (session : Session) :
    migration.attemptUnits mode manifest (keys.map .key) session =
      let ((reports, skipped), last) :=
        migration.attempt (fun key : ContentKey => key.id.toString) migration.mapKey keys session
      ((reports.map (UnitReport.map .key), skipped), last) := by
  unfold attemptUnits
  exact attempt_map MigrationUnit.key UnitTarget.key (fun _ => rfl) (fun _ _ => rfl) keys session

/-- A migration is the attempt of all its units in one list. -/
theorem execute_eq_attemptUnits (migration : Migration) (mode : Mode) (manifest : Manifest)
    (session : Session) :
    migration.attemptUnits mode manifest manifest.units session =
      (((migration.execute mode manifest session).1.units,
          (migration.execute mode manifest session).1.cancelled),
        (migration.execute mode manifest session).2) := by
  have happend : ∀ (first second : List MigrationUnit) (session : Session),
      migration.attemptUnits mode manifest (first ++ second) session =
        let ((reports, skipped), middle) := migration.attemptUnits mode manifest first session
        if skipped then ((reports, true), middle)
        else
          let ((others, skipped), last) := migration.attemptUnits mode manifest second middle
          ((reports ++ others, skipped), last) :=
    attempt_append
  rw [Manifest.units, List.append_assoc, happend, attemptUnits_containers]
  simp only [execute_eq, happend, attemptUnits_assets, attemptUnits_keys]
  split
  · simp [MigrationReport.units]
  · split <;> simp [MigrationReport.units]

theorem units_execute (migration : Migration) (mode : Mode) (manifest : Manifest)
    (session : Session) :
    (migration.execute mode manifest session).1.units =
      (migration.attemptUnits mode manifest manifest.units session).1.1 := by
  rw [execute_eq_attemptUnits]

theorem cancelled_execute (migration : Migration) (mode : Mode) (manifest : Manifest)
    (session : Session) :
    (migration.execute mode manifest session).1.cancelled =
      (migration.attemptUnits mode manifest manifest.units session).1.2 := by
  rw [execute_eq_attemptUnits]

theorem session_execute (migration : Migration) (mode : Mode) (manifest : Manifest)
    (session : Session) :
    (migration.execute mode manifest session).2 =
      (migration.attemptUnits mode manifest manifest.units session).2 := by
  rw [execute_eq_attemptUnits]

end Migration

end MediaMigration
