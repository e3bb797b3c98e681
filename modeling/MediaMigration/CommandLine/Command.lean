import MediaMigration.CommandLine.Arguments
import MediaMigration.CommandLine.Summary
import MediaMigration.Manifest.Document
import MediaMigration.Migration.Run
import MediaMigration.Settings.Document
import MediaMigration.Settings.Environment

/-!
# Commands

A command reads the settings first, then overrides them by the environment and by its own
options, checks the templates, and reads the manifest last; the first of these that fails
ends it. What it prints and how it exits is a value here, as is the tree that it leaves. A
migration that runs may be interrupted at any moment; a plan is not.
-/

namespace MediaMigration

namespace CommandLine

structure Output where
  exitCode : Nat
  stdout : List String := []
  stderr : List String := []

structure CommandError where
  context? : Option String := none
  error : MigrationError

namespace CommandError

def message (failure : CommandError) : String :=
  ": ".intercalate
    (failure.context?.toList ++ [failure.error.message] ++ failure.error.cause?.toList)

def output (failure : CommandError) : Output where
  exitCode := 1
  stderr :=
    ("Error: " ++ failure.message) ::
      (failure.error.advice?.map fun advice => "  Fix: " ++ advice).toList

end CommandError

def attempting {α : Type} (context? : Option String) (outcome : Except MigrationError α) :
    Except CommandError α :=
  match outcome with
  | .ok value => .ok value
  | .error error => .error ⟨context?, error⟩

/-- What a command asks of the settings beyond document and environment: another root of the
blob store, and that existing blobs are replaced. -/
structure Override where
  storageRoot? : Option FilePath := none
  overwrite : Bool := false

def Override.apply (override : Override) (settings : Settings) : Settings :=
  { settings with
    storageRoot := override.storageRoot?.getD settings.storageRoot
    overwrite := settings.overwrite || override.overwrite }

def loadSettings (lookUp : String → Option String) (tree : FileTree)
    (config? : Option FilePath) : Except CommandError Settings := do
  let settings ←
    match config? with
    | none => .ok {}
    | some path =>
        attempting (some ("Failed to load config " ++ path.text)) (Settings.load tree path)
  attempting none (settings.withVariables lookUp)

structure Job where
  settings : Settings
  templates : Templates
  manifest : Manifest
  sourceRoot : FilePath

def sourceRootOf (manifest : FilePath) : FilePath :=
  (manifest.parent?.filter fun path => path.text != "").getD ⟨"."⟩

def Job.load (lookUp : String → Option String) (tree : FileTree) (manifest : FilePath)
    (config? : Option FilePath) (override : Override) : Except CommandError Job := do
  let settings := override.apply (← loadSettings lookUp tree config?)
  let templates ← attempting none settings.templates
  let resources ←
    attempting (some ("Failed to load manifest " ++ manifest.text)) (Manifest.load tree manifest)
  .ok ⟨settings, templates, resources, sourceRootOf manifest⟩

def Job.paths (job : Job) : List FilePath :=
  job.settings.storageRoot ::
    job.manifest.assets.flatMap fun entry => entry.files.map job.sourceRoot.join

/-- The moment at which a migration is interrupted: so many calls that write to the store have
returned, and its token has been looked at so often since then. -/
structure Interrupt where
  writeCalls : Nat
  looks : Nat
deriving DecidableEq, Repr

def Job.execute (job : Job) (mode : Mode) (overwrite : Bool) (interrupt? : Option Interrupt)
    (tree : FileTree) : MigrationReport × FileTree :=
  let store : BlobStore := ⟨job.settings.storageRoot, overwrite⟩
  let migration : Migration :=
    ⟨job.templates, store, job.sourceRoot, interrupt?.map Interrupt.writeCalls⟩
  let spareLooks := (interrupt?.map Interrupt.looks).getD 0
  let (report, session) := migration.execute mode job.manifest { tree, spareLooks }
  (report, session.tree)

def validateOutput (kind : ResourceKind) (template : String) : Output :=
  match Template.validate template kind with
  | .ok _ => ⟨0, [successMark ++ " " ++ kind.name ++ " template is valid"], []⟩
  | .error error =>
      let advice := (error.advice?.map fun advice => "  Fix: " ++ advice).toList
      ⟨1, (failureMark ++ " " ++ error.message) :: advice, []⟩

def targetLine (settings : Settings) : String :=
  "→ Migrating into " ++ settings.storageRoot.text ++
    (if settings.overwrite then " (overwrite)" else "")

def Command.job? (command : Command) (lookUp : String → Option String) (tree : FileTree) :
    Option Job :=
  let load (manifest : FilePath) (config? : Option FilePath) (override : Override) :=
    (Job.load lookUp tree manifest config? override).toOption
  match command with
  | .validate _ _ => none
  | .expand manifest config? _ => load manifest config? {}
  | .migrate manifest config? storageRoot? overwrite =>
      load manifest config? ⟨storageRoot?, overwrite⟩

def Command.run (command : Command) (lookUp : String → Option String) (tree : FileTree)
    (interrupt? : Option Interrupt := none) : Output × FileTree :=
  match command with
  | .validate kind template => (validateOutput kind template, tree)
  | .expand manifest config? asJson =>
      match Job.load lookUp tree manifest config? {} with
      | .error failure => (failure.output, tree)
      | .ok job =>
          let (report, tree) := job.execute .plan false none tree
          let lines := if asJson then [(reportDocument report).toText] else reportLines report
          (⟨if report.failed = 0 then 0 else 1, lines, []⟩, tree)
  | .migrate manifest config? storageRoot? overwrite =>
      match Job.load lookUp tree manifest config? ⟨storageRoot?, overwrite⟩ with
      | .error failure => (failure.output, tree)
      | .ok job =>
          let (report, tree) := job.execute .run job.settings.overwrite interrupt? tree
          let succeeded := report.failed = 0 ∧ !report.cancelled
          (⟨if succeeded then 0 else 1, targetLine job.settings :: reportLines report, []⟩, tree)

def versionLine : String :=
  "ams-migrate 0.1.0"

def usageLines : List String :=
  ["Map media assets, containers and content keys into blob storage", "",
    "Usage: ams-migrate [OPTIONS] <COMMAND>", "", "Commands:",
    "  validate  Check a template's placeholders against a resource kind",
    "  expand    Print the names each unit of a manifest maps to",
    "  migrate   Upload the manifest's assets into the local blob store",
    "  help      Print this message or the help of the given subcommand(s)", "", "Options:",
    "  -v, --verbose  Log at debug level",
    "  -h, --help     Print help",
    "  -V, --version  Print version"]

def Halt.output : Halt → Output
  | .help => ⟨0, usageLines, []⟩
  | .version => ⟨0, [versionLine], []⟩
  | .misuse => ⟨2, [], usageLines⟩

def run (args : List String) (lookUp : String → Option String) (tree : FileTree)
    (interrupt? : Option Interrupt := none) : Output × FileTree :=
  match Command.ofArguments args with
  | .error halt => (halt.output, tree)
  | .ok command => command.run lookUp tree interrupt?

end CommandLine

end MediaMigration
