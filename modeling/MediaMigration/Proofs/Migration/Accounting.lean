import MediaMigration.Proofs.Migration.Units

/-!
# A report accounts for every unit

Units are attempted in the order of the manifest until one is skipped, so the report names
the first so many of them, and it says that the migration was cancelled exactly when there
are others. The counts of a report add up to the entries that it has.
-/

namespace MediaMigration

namespace Migration

variable {α β : Type} {migration : Migration} {name : α → String}
  {step : α → Session → Except MigrationError β × Session}

/-- The units with a report are the first ones, and a unit was skipped if and only if some
have none. -/
theorem attempt_names (units : List α) (session : Session) :
    let attempted := migration.attempt name step units session
    attempted.1.1.map UnitReport.unit = (units.take attempted.1.1.length).map name ∧
      (attempted.1.2 = true ↔ attempted.1.1.length < units.length) := by
  induction units generalizing session with
  | nil => simp [attempt]
  | cons unit rest ih =>
      cases hcancel : session.isCancelled migration.cancelAfter? with
      | true =>
          rw [attempt_of_cancelled hcancel]
          simp
      | false =>
          rw [attempt_cons_of_not_cancelled hcancel]
          obtain ⟨hnames, hskipped⟩ :=
            ih (step unit (session.looked migration.cancelAfter?)).2
          refine ⟨?_, ?_⟩
          · simp only [List.map_cons, List.length_cons, List.take_succ_cons]
            rw [hnames]
          · rw [List.length_cons, List.length_cons, Nat.add_lt_add_iff_right]
            exact hskipped

theorem attempt_length (hnever : migration.cancelAfter? = none) (units : List α)
    (session : Session) :
    (migration.attempt name step units session).1.1.length = units.length := by
  induction units generalizing session with
  | nil => rfl
  | cons unit rest ih =>
      rw [attempt_cons_of_never hnever, List.length_cons, List.length_cons, ih]

variable (name step) in
theorem attempt_at (hnever : migration.cancelAfter? = none) {units : List α} {index : Nat}
    {unit : α} (hunit : units[index]? = some unit) (session : Session) :
    let before := migration.sessionBefore name step units index session
    (migration.attempt name step units session).1.1[index]? =
        some ⟨name unit, (step unit before).1⟩ ∧
      (migration.attempt name step units session).2 =
        (migration.attempt name step (units.drop (index + 1)) (step unit before).2).2 := by
  have hindex : index < (migration.attempt name step units session).1.1.length := by
    rw [attempt_length hnever]
    exact (List.getElem?_eq_some_iff.mp hunit).1
  have hreport := List.getElem?_eq_getElem hindex
  obtain ⟨found, hfound, hname, houtcome, hlast⟩ := attempt_entry hreport
  obtain rfl : unit = found := Option.some.inj (hunit.symm.trans hfound)
  refine ⟨?_, hlast⟩
  rw [hreport, ← hname, ← houtcome]

theorem attempt_singleton (hnever : migration.cancelAfter? = none) (unit : α)
    (session : Session) :
    migration.attempt name step [unit] session =
      (([⟨name unit, (step unit (session.looked migration.cancelAfter?)).1⟩], false),
        (step unit (session.looked migration.cancelAfter?)).2) := by
  rw [attempt_cons_of_never hnever]
  rfl

end Migration

namespace UnitReport

variable {α β : Type}

theorem target?_or_failure? (report : UnitReport α) :
    report.target?.isSome ≠ report.failure?.isSome := by
  unfold target? failure?
  cases report.outcome with
  | ok target => simp
  | error error => simp

@[simp] theorem succeeded_map (f : α → β) (report : UnitReport α) :
    (report.map f).succeeded = report.succeeded := by
  unfold succeeded map
  cases report.outcome <;> rfl

end UnitReport

namespace MigrationReport

/-- Failures can be counted in the one list of all units. -/
theorem failed_eq_countP (report : MigrationReport) :
    report.failed = report.units.countP fun unit => !unit.succeeded := by
  have hmap : ∀ {α : Type} (wrap : α → UnitTarget) (reports : List (UnitReport α)),
      (reports.map (UnitReport.map wrap)).countP (fun unit => !unit.succeeded) =
        reports.countP fun unit => !unit.succeeded := by
    intro α wrap reports
    rw [List.countP_map]
    refine List.countP_congr fun unit _ => ?_
    rw [Function.comp_apply, UnitReport.succeeded_map]
  rw [units, List.countP_append, List.countP_append, hmap, hmap, hmap, failed]

theorem attempted_eq_length (report : MigrationReport) :
    report.attempted = report.units.length := by
  simp [attempted, units, Nat.add_assoc]

theorem failed_add_migrated (report : MigrationReport) :
    report.failed + report.migrated = report.units.length := by
  have hle : report.failed ≤ report.attempted := by
    rw [failed_eq_countP, attempted_eq_length]
    exact List.countP_le_length
  rw [migrated, Nat.add_sub_cancel' hle, attempted_eq_length]

theorem failed_eq_zero_iff (report : MigrationReport) :
    report.failed = 0 ↔ ∀ unit ∈ report.units, unit.succeeded = true := by
  rw [failed_eq_countP, List.countP_eq_zero]
  simp

end MigrationReport

/-- A report has entries for the first units of a manifest, in their order, and says that the
migration was cancelled exactly when it has none for some unit. -/
structure MigrationReport.AccountsFor (report : MigrationReport) (manifest : Manifest) :
    Prop where
  names : report.units.map UnitReport.unit =
    (manifest.units.take report.units.length).map MigrationUnit.name
  target_or_failure : ∀ unit ∈ report.units,
    unit.target?.isSome ≠ unit.failure?.isSome
  cancelled_iff : report.cancelled = true ↔ report.units.length < manifest.units.length
  counts : report.failed + report.migrated = report.units.length

theorem Migration.execute_accounts (migration : Migration) (mode : Mode) (manifest : Manifest)
    (session : Session) :
    (migration.execute mode manifest session).1.AccountsFor manifest := by
  have hattempt :
      let attempted := migration.attemptUnits mode manifest manifest.units session
      attempted.1.1.map UnitReport.unit =
          (manifest.units.take attempted.1.1.length).map MigrationUnit.name ∧
        (attempted.1.2 = true ↔ attempted.1.1.length < manifest.units.length) :=
    attempt_names manifest.units session
  obtain ⟨hnames, hskipped⟩ := hattempt
  refine ⟨?_, fun unit _ => unit.target?_or_failure?, ?_, MigrationReport.failed_add_migrated _⟩
  · rw [units_execute]
    exact hnames
  · rw [units_execute, cancelled_execute]
    exact hskipped

end MediaMigration
