import MediaMigration.CommandLine.Command
import MediaMigration.Proofs.Migration.Accounting

/-!
# The exit code of a migration

A script that calls the tool reads nothing but its exit code. Zero is given only where the
report has an entry for each unit of the manifest and no entry is a failure. Neither a
failed unit nor one that was skipped because of an interrupt is passed over.
-/

namespace MediaMigration

namespace MigrationReport

variable {report : MigrationReport} {manifest : Manifest}

/-- Nothing was skipped exactly when the report names all units. -/
theorem AccountsFor.complete_iff (h : report.AccountsFor manifest) :
    report.cancelled = false ↔
      report.units.map UnitReport.unit = manifest.units.map MigrationUnit.name := by
  have hcancelled := h.cancelled_iff
  constructor
  · intro hnone
    rw [hnone] at hcancelled
    have hall : manifest.units.length ≤ report.units.length :=
      Nat.not_lt.mp fun hless => Bool.false_ne_true (hcancelled.mpr hless)
    rw [h.names, List.take_of_length_le hall]
  · intro hnames
    have hlength : report.units.length = manifest.units.length := by
      have hsame := congrArg List.length hnames
      rw [List.length_map, List.length_map] at hsame
      exact hsame
    apply Bool.eq_false_iff.mpr
    intro hcut
    have hless := hcancelled.mp hcut
    omega

end MigrationReport

namespace CommandLine

variable {lookUp : String → Option String} {tree : FileTree} {manifest : FilePath}
  {config? : Option FilePath} {storageRoot? : Option FilePath} {overwrite : Bool}
  {interrupt? : Option Interrupt}

theorem migrate_of_load_error {failure : CommandError}
    (h : Job.load lookUp tree manifest config? ⟨storageRoot?, overwrite⟩ = .error failure) :
    ((Command.migrate manifest config? storageRoot? overwrite).run lookUp tree
      interrupt?).1.exitCode ≠ 0 := by
  simp only [Command.run, h, CommandError.output]
  exact Nat.one_ne_zero

theorem migrate_exitCode_eq_zero_iff {job : Job}
    (h : Job.load lookUp tree manifest config? ⟨storageRoot?, overwrite⟩ = .ok job) :
    ((Command.migrate manifest config? storageRoot? overwrite).run lookUp tree
        interrupt?).1.exitCode = 0 ↔
      (job.execute .run job.settings.overwrite interrupt? tree).1.failed = 0 ∧
        (job.execute .run job.settings.overwrite interrupt? tree).1.cancelled = false := by
  simp only [Command.run, h]
  cases job.execute .run job.settings.overwrite interrupt? tree with
  | mk report last => simp

theorem Job.execute_accounts (job : Job) (mode : Mode) :
    (job.execute mode overwrite interrupt? tree).1.AccountsFor job.manifest := by
  unfold Job.execute
  exact Migration.execute_accounts _ mode job.manifest _

/-- Every report accounts for the units of its manifest, and a migration from the command
line exits with zero if and only if all of them were attempted and succeeded. -/
theorem migrate_exit_code_tells_all :
    (∀ (migration : Migration) (mode : Mode) (manifest : Manifest) (session : Session),
      (migration.execute mode manifest session).1.AccountsFor manifest) ∧
    ∀ (lookUp : String → Option String) (tree : FileTree) (manifest : FilePath)
      (config? storageRoot? : Option FilePath) (overwrite : Bool)
      (interrupt? : Option Interrupt),
      let output :=
        ((Command.migrate manifest config? storageRoot? overwrite).run lookUp tree interrupt?).1
      match Job.load lookUp tree manifest config? ⟨storageRoot?, overwrite⟩ with
      | .error _ => output.exitCode ≠ 0
      | .ok job =>
          let report := (job.execute .run job.settings.overwrite interrupt? tree).1
          output.exitCode = 0 ↔
            report.units.map UnitReport.unit = job.manifest.units.map MigrationUnit.name ∧
              ∀ unit ∈ report.units, unit.succeeded = true := by
  refine ⟨Migration.execute_accounts, ?_⟩
  intro lookUp tree manifest config? storageRoot? overwrite interrupt?
  cases hload : Job.load lookUp tree manifest config? ⟨storageRoot?, overwrite⟩ with
  | error failure => exact migrate_of_load_error hload
  | ok job =>
      have haccounts : (job.execute .run job.settings.overwrite interrupt? tree).1.AccountsFor
          job.manifest :=
        job.execute_accounts .run
      show _ ↔ _
      rw [migrate_exitCode_eq_zero_iff hload, haccounts.complete_iff,
        MigrationReport.failed_eq_zero_iff, and_comm]

end CommandLine

end MediaMigration
