import MediaMigration.Proofs.CommandLine.Loading
import MediaMigration.Proofs.CommandLine.Options

/-!
# Where a setting comes from

The options of a command come before the variables of the environment, these before the settings
document, and the document before the defaults. For the root of the store the first of these that
says something decides. A variable that is blank says nothing. For overwriting the option can only
switch it on, and a variable with a word for yes or no overrules the document in both directions.
The templates are those of the document or the defaults. A migration that has been loaded runs with
the settings that come out of this and with no others.
-/

namespace MediaMigration

namespace Settings

variable {lookUp : String → Option String} {name value : String} {settings last : Settings}

/-! ## The variables of the environment -/

theorem isBlank_iff : isBlank value = true ↔ Unicode.trim value.toList = [] := by
  rw [isBlank, List.all_eq_true, Unicode.trim, List.reverse_eq_nil_iff, List.dropWhile_eq_nil_iff]
  constructor
  · intro hall c hc
    have hmem := (List.dropWhile_sublist _).subset (List.mem_reverse.mp hc)
    exact hall c hmem
  · intro hdropped
    -- nothing is left behind the first white space, so it was white space all along
    have hnothing : value.toList.dropWhile Unicode.isWhiteSpace = [] := by
      cases hrest : value.toList.dropWhile Unicode.isWhiteSpace with
      | nil => rfl
      | cons c others =>
          have hstop := List.head?_dropWhile_not Unicode.isWhiteSpace value.toList
          rw [hrest] at hstop hdropped
          have hspace := hdropped c (by simp)
          simp [hspace] at hstop
    exact List.dropWhile_eq_nil_iff.mp hnothing

def Says (lookUp : String → Option String) (name value : String) : Prop :=
  lookUp name = some value ∧ Unicode.trim value.toList ≠ []

def SaysNothing (lookUp : String → Option String) (name : String) : Prop :=
  ∀ value, lookUp name = some value → Unicode.trim value.toList = []

theorem spoken?_eq_some_iff : spoken? lookUp name = some value ↔ Says lookUp name value := by
  rw [spoken?, Option.filter_eq_some_iff, Says, Ne, ← isBlank_iff, Bool.not_eq_true',
    Bool.not_eq_true]

theorem spoken?_eq_none_iff : spoken? lookUp name = none ↔ SaysNothing lookUp name := by
  rw [spoken?, Option.filter_eq_none_iff, SaysNothing]
  simp only [← isBlank_iff, Bool.not_eq_true', Bool.not_eq_false]

/-- Is a value a word for yes? White space around the word and the case of its ASCII letters are of
no account. -/
def IsYes (value : String) : Prop :=
  ∃ word ∈ ["1", "true", "yes", "on"],
    Text.equalIgnoringCase (String.ofList (Unicode.trim value.toList)) word = true

theorem flag?_eq_some_true_iff : flag? value = some true ↔ IsYes value := by
  rw [IsYes, exists_word_iff (by decide), flag?]
  split
  · next hyes => simp [hyes]
  · next hyes =>
      split
      · simp [hyes]
      · simp [hyes]

theorem withVariables_fails_iff_says (settings : Settings) :
    (∃ error, settings.withVariables lookUp = .error error) ↔
      ∃ value, Says lookUp overwriteVariable value ∧ ¬ IsFlag value := by
  simp only [settings.withVariables_fails_iff, Says, Ne, ← isBlank_iff, Bool.not_eq_true, and_assoc]

theorem storageRoot_withVariables (h : settings.withVariables lookUp = .ok last) :
    last.storageRoot =
      ((spoken? lookUp storageRootVariable).map FilePath.mk).getD settings.storageRoot := by
  have hroot : (settings.withStorageRootVariable lookUp).storageRoot =
      ((spoken? lookUp storageRootVariable).map FilePath.mk).getD settings.storageRoot := by
    unfold withStorageRootVariable
    split
    · next hspoken => rw [hspoken]; rfl
    · next hspoken => rw [hspoken]; rfl
  rw [← hroot]
  unfold withVariables at h
  split at h
  · rw [← Except.ok.inj h]
  · split at h
    · rw [← Except.ok.inj h]
    · exact absurd h (by simp)

theorem overwrite_withVariables (h : settings.withVariables lookUp = .ok last) :
    last.overwrite = true ↔ (∃ value, Says lookUp overwriteVariable value ∧ IsYes value) ∨
      (SaysNothing lookUp overwriteVariable ∧ settings.overwrite = true) := by
  have hkept : (settings.withStorageRootVariable lookUp).overwrite = settings.overwrite := by
    unfold withStorageRootVariable
    split <;> rfl
  simp only [← flag?_eq_some_true_iff, ← spoken?_eq_some_iff, ← spoken?_eq_none_iff]
  unfold withVariables at h
  split at h
  · next hnone => rw [← Except.ok.inj h, hkept, hnone]; simp
  · next value hspoken =>
      split at h
      · next overwrite hflag =>
          rw [← Except.ok.inj h, hspoken]
          simp [hflag]
      · exact absurd h (by simp)

theorem templates_withVariables (h : settings.withVariables lookUp = .ok last) :
    last.templates = settings.templates := by
  obtain ⟨storageRoot, overwrite, rfl⟩ := withVariables_ok h
  rfl

end Settings

namespace CommandLine

open Settings

/-- Settings that come from a command line, from the environment and from what else was set, each
from the first of these that says something of it. -/
structure IsMerged (args : List String) (lookUp : String → Option String)
    (settings last : Settings) : Prop where
  root_of_option : ∀ root, GivesValue args .storageRoot root → last.storageRoot = ⟨root⟩
  root_of_variable : (∀ root, ¬ GivesValue args .storageRoot root) →
    ∀ root, Says lookUp storageRootVariable root → last.storageRoot = ⟨root⟩
  root_of_settings : (∀ root, ¬ GivesValue args .storageRoot root) →
    SaysNothing lookUp storageRootVariable → last.storageRoot = settings.storageRoot
  overwrite_iff : last.overwrite = true ↔ Flag.overwrite.written none ∈ args ∨
    (∃ value, Says lookUp overwriteVariable value ∧ IsYes value) ∨
    (SaysNothing lookUp overwriteVariable ∧ settings.overwrite = true)
  templates_eq : last.templates = settings.templates

variable {args : List String} {lookUp : String → Option String} {tree : FileTree}
  {manifest : FilePath} {config? storageRoot? : Option FilePath} {overwrite : Bool}
  {settings last : Settings} {job : Job} {interrupt? : Option Interrupt}

theorem isMerged_apply
    (hcommand : Command.ofArguments args = .ok (.migrate manifest config? storageRoot? overwrite))
    (h : settings.withVariables lookUp = .ok last) :
    IsMerged args lookUp settings (Override.apply ⟨storageRoot?, overwrite⟩ last) := by
  obtain ⟨hroot, hoverwrite⟩ := options_of_ofArguments hcommand
  have hstored := storageRoot_withVariables h
  have hnone : (∀ root, ¬ GivesValue args .storageRoot root) → storageRoot? = none := by
    intro hfree
    cases storageRoot? with
    | none => rfl
    | some root => exact absurd ((hroot root.text).mp rfl) (hfree root.text)
  refine ⟨?_, ?_, ?_, ?_, ?_⟩
  · intro root hgiven
    rw [Override.apply, (hroot root).mpr hgiven]
    rfl
  · intro hfree root hsays
    rw [spoken?_eq_some_iff.mpr hsays] at hstored
    rw [Override.apply, hnone hfree]
    exact hstored
  · intro hfree hsilent
    rw [spoken?_eq_none_iff.mpr hsilent] at hstored
    rw [Override.apply, hnone hfree]
    exact hstored
  · rw [← overwrite_withVariables h, ← hoverwrite, Override.apply, Bool.or_eq_true, or_comm]
  · rw [← templates_withVariables h]
    rfl

def Job.migration (job : Job) (interrupt? : Option Interrupt) : Migration :=
  ⟨job.templates, ⟨job.settings.storageRoot, job.settings.overwrite⟩, job.sourceRoot,
    interrupt?.map Interrupt.writeCalls⟩

/-- A command line whose job was loaded runs the migration of that job and prints its report. -/
theorem run_of_load
    (hcommand : Command.ofArguments args = .ok (.migrate manifest config? storageRoot? overwrite))
    (h : Job.load lookUp tree manifest config? ⟨storageRoot?, overwrite⟩ = .ok job) :
    let outcome := (job.migration interrupt?).execute .run job.manifest
      { tree, spareLooks := (interrupt?.map Interrupt.looks).getD 0 }
    (run args lookUp tree interrupt?).1.stdout =
        targetLine job.settings :: reportLines outcome.1 ∧
      (run args lookUp tree interrupt?).2 = outcome.2.tree := by
  simp only [run, hcommand, Command.run, h]
  exact ⟨rfl, rfl⟩

/-- Settings are merged by priority and by nothing else. The environment fails them exactly if it
has a word for overwriting that is neither yes nor no. A command line that gets past loading runs a
migration whose root of the store is that of the option, else that of the variable as it is written,
else that of the document or the default, which replaces blobs exactly if the option is there, or
the variable says yes, or it says nothing and the document or the default has it so, and whose
templates are those of the document or the defaults. -/
theorem settings_merge_by_priority :
    (∀ (settings : Settings) (lookUp : String → Option String),
      (∃ error, settings.withVariables lookUp = .error error) ↔
        ∃ value, Says lookUp overwriteVariable value ∧ ¬ IsFlag value) ∧
    ∀ (args : List String) (lookUp : String → Option String) (tree : FileTree)
      (interrupt? : Option Interrupt) (manifest : FilePath)
      (config? storageRoot? : Option FilePath) (overwrite : Bool) (job : Job),
      Command.ofArguments args = .ok (.migrate manifest config? storageRoot? overwrite) →
      Job.load lookUp tree manifest config? ⟨storageRoot?, overwrite⟩ = .ok job →
      (∃ settings, Documented tree config? settings ∧
        IsMerged args lookUp settings job.settings ∧ settings.templates = .ok job.templates) ∧
      let outcome := (job.migration interrupt?).execute .run job.manifest
        { tree, spareLooks := (interrupt?.map Interrupt.looks).getD 0 }
      (run args lookUp tree interrupt?).1.stdout =
          targetLine job.settings :: reportLines outcome.1 ∧
        (run args lookUp tree interrupt?).2 = outcome.2.tree := by
  refine ⟨fun settings lookUp => settings.withVariables_fails_iff_says, ?_⟩
  intro args lookUp tree interrupt? manifest config? storageRoot? overwrite job hcommand hload
  refine ⟨?_, run_of_load hcommand hload⟩
  obtain ⟨settings, last, hdocumented, hvariables, hjob, htemplates, -⟩ := Job.load_ok hload
  have hmerged := isMerged_apply hcommand hvariables
  rw [← hjob] at hmerged
  exact ⟨settings, hdocumented, hmerged, hmerged.templates_eq ▸ htemplates⟩

namespace EveryLayer

def arguments : List String :=
  ["migrate", "--manifest", "media.yaml", "--config", "ams.yaml"]

def environment (name : String) : Option String :=
  if name = storageRootVariable then some " blobs "
  else if name = overwriteVariable then some "\u00a0Off "
  else none

def files : FileTree :=
  ((FileTree.empty.put ["ams.yaml"]
      (.file "storage_root: kept\noverwrite: true\npath_template: media\n".toUTF8.data.toList)).put
    ["media.yaml"] (.file "containers:\n- name: media\n".toUTF8.data.toList))

end EveryLayer

/-- The document has another root and switches overwriting on, and the environment overrules both. -/
theorem settings_merge_every_layer :
    ∃ job, Command.ofArguments EveryLayer.arguments =
        .ok (.migrate ⟨"media.yaml"⟩ (some ⟨"ams.yaml"⟩) none false) ∧
      Job.load EveryLayer.environment EveryLayer.files ⟨"media.yaml"⟩ (some ⟨"ams.yaml"⟩)
        ⟨none, false⟩ = .ok job ∧
      job.settings.storageRoot = ⟨" blobs "⟩ ∧ job.settings.overwrite = false := by
  have hcommand : Command.ofArguments EveryLayer.arguments =
      .ok (.migrate ⟨"media.yaml"⟩ (some ⟨"ams.yaml"⟩) none false) := by
    decide +kernel
  have hloads : (Job.load EveryLayer.environment EveryLayer.files ⟨"media.yaml"⟩
      (some ⟨"ams.yaml"⟩) ⟨none, false⟩).toOption.isSome = true := by
    decide +kernel
  have hroot : Says EveryLayer.environment storageRootVariable " blobs " :=
    ⟨by decide +kernel, by decide +kernel⟩
  have hword : Says EveryLayer.environment overwriteVariable "\u00a0Off " :=
    ⟨by decide +kernel, by decide +kernel⟩
  have hno : flag? "\u00a0Off " = some false := by decide +kernel
  cases hload : Job.load EveryLayer.environment EveryLayer.files ⟨"media.yaml"⟩
      (some ⟨"ams.yaml"⟩) ⟨none, false⟩ with
  | error failure => simp [hload, Except.toOption] at hloads
  | ok job =>
      obtain ⟨⟨settings, -, hmerged, -⟩, -⟩ :=
        settings_merge_by_priority.2 _ _ _ none _ _ _ _ job hcommand hload
      obtain ⟨hgiven, hflag⟩ := options_of_ofArguments hcommand
      have hnone : ∀ root, ¬ GivesValue EveryLayer.arguments .storageRoot root :=
        fun root h => absurd ((hgiven root).mpr h) (by simp)
      refine ⟨job, hcommand, rfl, hmerged.root_of_variable hnone _ hroot, ?_⟩
      rw [Bool.eq_false_iff]
      intro hon
      rcases hmerged.overwrite_iff.mp hon with hoption | ⟨value, hsays, hyes⟩ | ⟨hsilent, -⟩
      · exact absurd (hflag.mpr hoption) Bool.false_ne_true
      · obtain rfl : "\u00a0Off " = value := Option.some.inj (hword.1.symm.trans hsays.1)
        rw [← flag?_eq_some_true_iff, hno] at hyes
        exact absurd hyes (by simp)
      · exact hword.2 (hsilent _ hword.1)

end CommandLine

end MediaMigration
