import MediaMigration.CommandLine.Command
import MediaMigration.Proofs.Settings.Templates

/-!
# What stops a command before it starts

A command that plans or runs a migration reads settings, environment, templates and manifest before
it looks at the store. It gets past this exactly when none of them has a fault, whichever would be
met first. With a fault it ends with exit code one, prints nothing but the failure, and leaves the
file tree as it is: not even the root of the store has been made.
-/

namespace MediaMigration

namespace Settings

/-! ## Settings and environment -/

def flagWords : List String :=
  ["1", "true", "yes", "on"] ++ ["0", "false", "no", "off"]

/-- Does a value say yes or no? White space around the word and the case of its ASCII letters are
of no account. -/
def IsFlag (value : String) : Prop :=
  ∃ word ∈ flagWords,
    Text.equalIgnoringCase (String.ofList (Unicode.trim value.toList)) word = true

theorem exists_word_iff {words : List String} {value : String}
    (hlower : ∀ word ∈ words, word.toList.map Char.toLower = word.toList) :
    (∃ word ∈ words,
      Text.equalIgnoringCase (String.ofList (Unicode.trim value.toList)) word = true) ↔
      String.ofList ((Unicode.trim value.toList).map Char.toLower) ∈ words := by
  constructor
  · rintro ⟨word, hword, hsame⟩
    rw [Text.equalIgnoringCase_iff, String.toList_ofList, hlower word hword] at hsame
    rw [hsame, String.ofList_toList]
    exact hword
  · intro hmem
    refine ⟨_, hmem, ?_⟩
    rw [Text.equalIgnoringCase_iff, hlower _ hmem, String.toList_ofList, String.toList_ofList]

theorem flag?_eq_none_iff {value : String} : flag? value = none ↔ ¬ IsFlag value := by
  rw [IsFlag, exists_word_iff (by decide), flagWords, List.mem_append, not_or, flag?]
  split
  · next hyes => simp [hyes]
  · next hyes =>
      split
      · next hno => simp [hno]
      · next hno => exact iff_of_true rfl ⟨hyes, hno⟩

theorem withVariables_ok {settings last : Settings} {lookUp : String → Option String}
    (h : settings.withVariables lookUp = .ok last) :
    ∃ storageRoot overwrite, last = { settings with storageRoot, overwrite } := by
  have hroot : ∃ storageRoot,
      settings.withStorageRootVariable lookUp = { settings with storageRoot } := by
    unfold withStorageRootVariable
    split
    · exact ⟨_, rfl⟩
    · exact ⟨settings.storageRoot, rfl⟩
  obtain ⟨storageRoot, hroot⟩ := hroot
  unfold withVariables at h
  rw [hroot] at h
  split at h
  · exact ⟨storageRoot, settings.overwrite, (Except.ok.inj h).symm⟩
  · split at h
    · exact ⟨storageRoot, _, (Except.ok.inj h).symm⟩
    · exact absurd h (by simp)

theorem configured_withVariables {settings last : Settings} {lookUp : String → Option String}
    (h : settings.withVariables lookUp = .ok last) : last.configured = settings.configured := by
  obtain ⟨storageRoot, overwrite, rfl⟩ := withVariables_ok h
  rfl

theorem withVariables_fails_iff (settings : Settings) {lookUp : String → Option String} :
    (∃ error, settings.withVariables lookUp = .error error) ↔
      ∃ value, lookUp overwriteVariable = some value ∧ isBlank value = false ∧ ¬ IsFlag value := by
  have hspoken (value : String) : spoken? lookUp overwriteVariable = some value ↔
      lookUp overwriteVariable = some value ∧ isBlank value = false := by
    rw [spoken?, Option.filter_eq_some_iff, Bool.not_eq_true']
  simp only [← flag?_eq_none_iff, ← and_assoc, ← hspoken]
  unfold withVariables
  cases spoken? lookUp overwriteVariable with
  | none => simp
  | some value => cases hflag : flag? value <;> simp [hflag]

/-- What settings say before the environment is asked: those of the document that is named, or the
defaults if none is. -/
def Documented (tree : FileTree) : Option FilePath → Settings → Prop
  | none, settings => settings = {}
  | some path, settings => Settings.load tree path = .ok settings

theorem Documented.unique {tree : FileTree} {config? : Option FilePath} {first second : Settings}
    (hfirst : Documented tree config? first) (hsecond : Documented tree config? second) :
    first = second := by
  cases config? with
  | none => exact hfirst.trans hsecond.symm
  | some path => exact Except.ok.inj (hfirst.symm.trans hsecond)

end Settings

namespace CommandLine

/-- What may be wrong with that which a migration is loaded from. A file that cannot be read and
one that cannot be understood are told apart; the order of the faults says nothing. -/
inductive Job.Fault (lookUp : String → Option String) (tree : FileTree) (manifest : FilePath)
    (config? : Option FilePath) : Prop where
  | unreadableSettings {path : FilePath} {error : IoError} (named : config? = some path)
      (unreadable : tree.readText path = .error error)
  | malformedSettings {path : FilePath} {text : String} {error : MigrationError}
      (named : config? = some path) (read : tree.readText path = .ok text)
      (malformed : Settings.ofYaml text = .error error)
  | notBoolean {value : String} (given : lookUp Settings.overwriteVariable = some value)
      (spoken : Settings.isBlank value = false) (foreign : ¬ Settings.IsFlag value)
  | template {settings : Settings} {text : String} {kind : ResourceKind}
      (documented : settings.Documented tree config?)
      (configured : (text, kind) ∈ settings.configured)
      (foreign : ¬ Template.UsesOnlyKeysOf kind text)
  | manifest {error : MigrationError} (unloadable : Manifest.load tree manifest = .error error)

variable {lookUp : String → Option String} {tree : FileTree} {manifest : FilePath}
  {config? : Option FilePath} {override : Override} {failure : CommandError}

@[simp] theorem attempting_eq_ok_iff {α : Type} {context? : Option String}
    {outcome : Except MigrationError α} {value : α} :
    attempting context? outcome = .ok value ↔ outcome = .ok value := by
  cases outcome <;> simp [attempting]

theorem attempting_error {α : Type} {context? : Option String}
    {outcome : Except MigrationError α} (h : attempting context? outcome = .error failure) :
    ∃ error, outcome = .error error := by
  cases outcome with
  | error error => exact ⟨error, rfl⟩
  | ok value => exact absurd h (by simp [attempting])

/-- One step of a loading fails, or it succeeds and the rest fails. -/
theorem bind_eq_error {α β : Type} {first : Except CommandError α}
    {rest : α → Except CommandError β} (h : first >>= rest = .error failure) :
    first = .error failure ∨ ∃ value, first = .ok value ∧ rest value = .error failure := by
  cases first with
  | error early => exact .inl (congrArg Except.error (Except.error.inj h))
  | ok value => exact .inr ⟨value, rfl, h⟩

theorem bind_eq_ok {α β : Type} {first : Except CommandError α}
    {rest : α → Except CommandError β} {last : β} (h : first >>= rest = .ok last) :
    ∃ value, first = .ok value ∧ rest value = .ok last := by
  cases first with
  | error early => exact absurd h (by simp [Bind.bind, Except.bind])
  | ok value => exact ⟨value, rfl, h⟩

/-! ## Loading the settings -/

theorem loadSettings_ok {last : Settings} (h : loadSettings lookUp tree config? = .ok last) :
    ∃ settings, Settings.Documented tree config? settings ∧
      settings.withVariables lookUp = .ok last := by
  unfold loadSettings at h
  cases config? with
  | none =>
      obtain ⟨settings, hdefault, hvariables⟩ := bind_eq_ok h
      exact ⟨settings, (Except.ok.inj hdefault).symm, attempting_eq_ok_iff.mp hvariables⟩
  | some path =>
      obtain ⟨settings, hdocument, hvariables⟩ := bind_eq_ok h
      exact ⟨settings, attempting_eq_ok_iff.mp hdocument, attempting_eq_ok_iff.mp hvariables⟩

/-- A word for overwriting that is no boolean is met whatever settings it overrides. -/
theorem fault_of_variables {settings : Settings}
    (h : attempting none (settings.withVariables lookUp) = .error failure) :
    Job.Fault lookUp tree manifest config? := by
  obtain ⟨value, hgiven, hspoken, hforeign⟩ :=
    settings.withVariables_fails_iff.mp (attempting_error h)
  exact .notBoolean hgiven hspoken hforeign

theorem loadSettings_error (h : loadSettings lookUp tree config? = .error failure) :
    Job.Fault lookUp tree manifest config? := by
  unfold loadSettings at h
  cases config? with
  | none =>
      rcases bind_eq_error h with hdefault | ⟨settings, -, hvariables⟩
      · exact absurd hdefault (by simp)
      · exact fault_of_variables hvariables
  | some path =>
      rcases bind_eq_error h with hdocument | ⟨settings, -, hvariables⟩
      · obtain ⟨error, herror⟩ := attempting_error hdocument
        unfold Settings.load at herror
        cases hread : tree.readText path with
        | error unread => exact .unreadableSettings rfl hread
        | ok text =>
            rw [hread] at herror
            exact .malformedSettings rfl hread herror
      · exact fault_of_variables hvariables

@[simp] theorem Override.configured_apply (override : Override) (settings : Settings) :
    (override.apply settings).configured = settings.configured :=
  rfl

/-! ## Loading a job -/

theorem Job.load_error (h : Job.load lookUp tree manifest config? override = .error failure) :
    Job.Fault lookUp tree manifest config? := by
  unfold Job.load at h
  rcases bind_eq_error h with hsettings | ⟨last, hsettings, h⟩
  · exact loadSettings_error hsettings
  · obtain ⟨settings, hdocumented, hvariables⟩ := loadSettings_ok hsettings
    rcases bind_eq_error h with htemplates | ⟨templates, -, h⟩
    · obtain ⟨error, herror⟩ := attempting_error htemplates
      have hforeign : ¬ ∀ checked ∈ (override.apply last).configured,
          Template.UsesOnlyKeysOf checked.2 checked.1 := by
        rw [← Settings.templates_ok_iff, herror]
        simp
      push Not at hforeign
      obtain ⟨⟨text, kind⟩, hmem, hunknown⟩ := hforeign
      rw [override.configured_apply, Settings.configured_withVariables hvariables] at hmem
      exact .template hdocumented hmem hunknown
    · rcases bind_eq_error h with hmanifest | ⟨resources, -, h⟩
      · obtain ⟨error, herror⟩ := attempting_error hmanifest
        exact .manifest herror
      · exact absurd h (by simp)

theorem Job.load_ok {job : Job}
    (h : Job.load lookUp tree manifest config? override = .ok job) :
    ∃ settings last, Settings.Documented tree config? settings ∧
      settings.withVariables lookUp = .ok last ∧ job.settings = override.apply last ∧
      job.settings.templates = .ok job.templates ∧ Manifest.load tree manifest = .ok job.manifest := by
  unfold Job.load at h
  obtain ⟨last, hsettings, h⟩ := bind_eq_ok h
  obtain ⟨templates, htemplates, h⟩ := bind_eq_ok h
  obtain ⟨resources, hmanifest, h⟩ := bind_eq_ok h
  obtain ⟨settings, hdocumented, hvariables⟩ := loadSettings_ok hsettings
  rw [← Except.ok.inj h]
  exact ⟨settings, last, hdocumented, hvariables, rfl, attempting_eq_ok_iff.mp htemplates,
    attempting_eq_ok_iff.mp hmanifest⟩

/-- A loading that succeeds has met none, also none that would have come later. -/
theorem Job.not_fault_of_load {job : Job}
    (h : Job.load lookUp tree manifest config? override = .ok job) :
    ¬ Job.Fault lookUp tree manifest config? := by
  obtain ⟨settings, last, hdocumented, hvariables, hsettings, htemplates, hmanifest⟩ :=
    Job.load_ok h
  intro hfault
  cases hfault with
  | unreadableSettings named unreadable =>
      subst named
      rw [Settings.Documented, Settings.load, unreadable] at hdocumented
      exact absurd hdocumented (by simp)
  | malformedSettings named read malformed =>
      subst named
      rw [Settings.Documented, Settings.load, read] at hdocumented
      exact absurd (malformed.symm.trans hdocumented) (by simp)
  | notBoolean given spoken foreign =>
      obtain ⟨error, herror⟩ := settings.withVariables_fails_iff.mpr
        ⟨_, given, spoken, foreign⟩
      exact absurd (herror.symm.trans hvariables) (by simp)
  | template documented configured foreign =>
      rw [documented.unique hdocumented, ← Settings.configured_withVariables hvariables,
        ← override.configured_apply, ← hsettings] at configured
      exact foreign (Settings.templates_ok_iff.mp ⟨_, htemplates⟩ _ configured)
  | manifest unloadable => exact absurd (unloadable.symm.trans hmanifest) (by simp)

/-- A job is loaded exactly when there is no fault. -/
theorem Job.load_fails_iff :
    (∃ failure, Job.load lookUp tree manifest config? override = .error failure) ↔
      Job.Fault lookUp tree manifest config? := by
  constructor
  · rintro ⟨failure, h⟩
    exact Job.load_error h
  · intro hfault
    cases hload : Job.load lookUp tree manifest config? override with
    | error failure => exact ⟨failure, rfl⟩
    | ok job => exact absurd hfault (Job.not_fault_of_load hload)

/-! ## Running a command -/

/-- Is a command that plans or runs a migration given something faulty? -/
def Command.MeetsFault (command : Command) (lookUp : String → Option String) (tree : FileTree) :
    Prop :=
  match command with
  | .validate _ _ => False
  | .expand manifest config? _ => Job.Fault lookUp tree manifest config?
  | .migrate manifest config? _ _ => Job.Fault lookUp tree manifest config?

theorem Command.run_of_fault {command : Command} (h : command.MeetsFault lookUp tree)
    (interrupt? : Option Interrupt) :
    ∃ failure : CommandError, command.run lookUp tree interrupt? = (failure.output, tree) := by
  cases command with
  | validate kind template => exact absurd h id
  | expand manifest config? asJson =>
      obtain ⟨failure, hload⟩ := Job.load_fails_iff.mpr h
      exact ⟨failure, by rw [Command.run, hload]⟩
  | migrate manifest config? storageRoot? overwrite =>
      obtain ⟨failure, hload⟩ := Job.load_fails_iff.mpr h
      exact ⟨failure, by rw [Command.run, hload]⟩

/-- Bad settings are found before anything is touched. The templates of any settings are accepted if
and only if each that is configured uses only keys of its kind, and the refusal names the first
template at fault by its kind and the leftmost unknown key. A command that plans or runs a migration
and is given a settings document that cannot be read or understood, a word for overwriting that is
no boolean, a template with a key of another kind or a manifest that cannot be loaded exits with one
and leaves the file tree as it is, whatever else it is given. -/
theorem bad_settings_touch_nothing :
    (∀ settings : Settings,
      ((∃ templates, settings.templates = .ok templates) ↔
        ∀ checked ∈ settings.configured, Template.UsesOnlyKeysOf checked.2 checked.1) ∧
      ∀ error, settings.templates = .error error ↔
        ∃ key kind, error = .unknownPlaceholder key kind ∧
          Settings.FirstUnknown settings.configured key kind) ∧
    ∀ (args : List String) (lookUp : String → Option String) (tree : FileTree)
      (interrupt? : Option Interrupt) (command : Command),
      Command.ofArguments args = .ok command → command.MeetsFault lookUp tree →
      (run args lookUp tree interrupt?).1.exitCode = 1 ∧
        (run args lookUp tree interrupt?).1.stdout = [] ∧
        (run args lookUp tree interrupt?).2 = tree := by
  constructor
  · intro settings
    exact ⟨Settings.templates_ok_iff, fun error => Settings.templates_eq_error_iff⟩
  · intro args lookUp tree interrupt? command hcommand hfault
    obtain ⟨failure, hrun⟩ := Command.run_of_fault hfault interrupt?
    have hoverall : run args lookUp tree interrupt? = (failure.output, tree) := by
      rw [run, hcommand]
      exact hrun
    rw [hoverall]
    exact ⟨rfl, rfl, rfl⟩

namespace KeyInContainerTemplate

def arguments : List String :=
  ["migrate", "--manifest", "media.yaml", "--config", "ams.yaml", "--overwrite"]

def command : Command :=
  .migrate ⟨"media.yaml"⟩ (some ⟨"ams.yaml"⟩) none true

def files : FileTree :=
  ((FileTree.empty.put ["ams.yaml"]
      (.file "container_template: \"$\x7bKeyId\x7d\"\n".toUTF8.data.toList)).put ["media.yaml"]
    (.file "containers:\n- name: media\n".toUTF8.data.toList))

end KeyInContainerTemplate

/-- The manifest and all else are in order, and yet nothing is touched. -/
theorem migrate_refuses_key_in_container_template :
    Command.ofArguments KeyInContainerTemplate.arguments = .ok KeyInContainerTemplate.command ∧
      KeyInContainerTemplate.command.MeetsFault (fun _ => none) KeyInContainerTemplate.files ∧
      (run KeyInContainerTemplate.arguments (fun _ => none)
        KeyInContainerTemplate.files).1.exitCode = 1 ∧
      (run KeyInContainerTemplate.arguments (fun _ => none)
        KeyInContainerTemplate.files).2 = KeyInContainerTemplate.files := by
  have hcommand : Command.ofArguments KeyInContainerTemplate.arguments =
      .ok KeyInContainerTemplate.command := by
    decide +kernel
  have hload : Settings.load KeyInContainerTemplate.files ⟨"ams.yaml"⟩ =
      .ok { containerTemplate := "$\x7bKeyId\x7d" } := by
    decide +kernel
  have hforeign : ¬ Template.UsesOnlyKeysOf .container "$\x7bKeyId\x7d" := by
    rw [← Template.firstUnknownKey?_eq_none_iff]
    decide +kernel
  have hfault : KeyInContainerTemplate.command.MeetsFault (fun _ => none)
      KeyInContainerTemplate.files :=
    .template hload (List.mem_cons_of_mem _ List.mem_cons_self) hforeign
  obtain ⟨hexit, -, hsame⟩ := bad_settings_touch_nothing.2 KeyInContainerTemplate.arguments
    (fun _ => none) KeyInContainerTemplate.files none _ hcommand hfault
  exact ⟨hcommand, hfault, hexit, hsame⟩

end CommandLine

end MediaMigration
