import MediaMigration.Proofs.BlobStore.UploadAgain
import MediaMigration.Proofs.Migration.Isolation
import MediaMigration.Proofs.Migration.Targets

/-!
# Running again

A run that is never cancelled only adds to the tree, so the same run made again meets all that the
first one met, and all that it made. What failed fails again. What was stored is stored again, or is
found to be there: either way the tree ends up as it was. The exception are inputs that go by what
the first run has made on the way to the store.
-/

namespace MediaMigration

open FileTree BlobStore

namespace Migration

variable {migration : Migration} {manifest : Manifest} {entry : AssetEntry}
  {start final : FileTree} {first second : Session}

theorem isExpanded_of_placement {placement : Placement}
    (h : migration.placementOf manifest entry = .ok placement) : placement.IsExpanded :=
  Mapper.isExpanded h

theorem containerOf?_ne_empty (migration : Migration) (manifest : Manifest) (entry : AssetEntry) :
    migration.containerOf? manifest entry ≠ some "" := by
  intro hempty
  obtain ⟨placement, hplacement, hname⟩ := Option.map_eq_some_iff.mp hempty
  cases hplace : migration.placementOf manifest entry with
  | error error =>
      rw [hplace] at hplacement
      exact absurd hplacement (by simp [Except.toOption])
  | ok other =>
      rw [hplace] at hplacement
      obtain rfl : other = placement := Option.some.inj hplacement
      exact (isExpanded_of_placement hplace).container.not_empty hname

/-- A session whose tree storing has led to. What lies in a container without a name, where nothing
goes, is as it was at the start. -/
def Reached (migration : Migration) (start : FileTree) (session : Session) : Prop :=
  migration.Alike start "" { tree := start } session

namespace Reached

variable {session : Session} {source : Location} {held : Bytes}

theorem entryAt_file (h : migration.Reached start session)
    (hups : start.GoesUpFromDirectories migration.store.root)
    (hfile : start.entryAt source = some (.file held))
    (hapart : ¬ IsNear (start.locationOf migration.store.root) source) :
    session.tree.entryAt source = some (.file held) := by
  rw [(h.grown.same hups).entryAt_eq source hapart, hfile]

theorem upload (h : migration.Reached start session) (hnever : migration.cancelAfter? = none)
    (hups : start.GoesUpFromDirectories migration.store.root) {container : String}
    (hne : container ≠ "") (hfile : start.entryAt source = some (.file held))
    (hapart : ¬ IsNear (start.locationOf migration.store.root) source) (blob : String) :
    migration.Reached start (session.upload migration.store migration.cancelAfter? container blob
      (.fileAt source)).2 :=
  Alike.upload_elsewhere h hnever hups hne (h.entryAt_file hups hfile hapart) blob

theorem uploadFiles (h : migration.Reached start session) (hnever : migration.cancelAfter? = none)
    (hups : start.GoesUpFromDirectories migration.store.root) {placement : Placement}
    (hne : placement.container ≠ "") {files : List CollectedFile}
    (hfiles : ∀ file ∈ files, AlwaysFile start file.path) :
    migration.Reached start (migration.uploadFiles placement files session).2 :=
  Alike.uploadFiles_elsewhere h hnever hups hne
    fun file hfile => (hfiles file hfile).later h.grown.grows

end Reached

/-- The session of a first run that leads to a final tree, and the session of the run made again
from there, both before the same unit. -/
structure Repeats (migration : Migration) (start final : FileTree) (first second : Session) :
    Prop where
  first_reached : migration.Reached start first
  second_reached : migration.Reached start second
  catches_up : CatchesUp final first.tree second.tree
  standing : migration.store.overwrite = false → second.tree = final

theorem Repeats.of_standing (hfirst : migration.Reached start first)
    (hsecond : migration.Reached start second) (h : second.tree = final) :
    migration.Repeats start final first second :=
  ⟨hfirst, hsecond, h ▸ .refl final first.tree, fun _ => h⟩

/-- The outcomes of a step in both runs: if blobs may be replaced, the same, provided that nothing
fails for another reason, and if not, a failure in the run made again, provided that there is
anything to store. -/
structure Recurs {α : Type} (migration : Migration) (settled stores : Prop)
    (one two : Except MigrationError α) : Prop where
  same : migration.store.overwrite = true → settled → two = one
  fails : migration.store.overwrite = false → stores → ∃ error, two = .error error

namespace Recurs

variable {α β : Type} {settled stores : Prop} {one two : Except MigrationError α}

theorem error (migration : Migration) (settled stores : Prop) (error : MigrationError) :
    migration.Recurs settled stores (.error error : Except MigrationError α) (.error error) :=
  ⟨fun _ _ => rfl, fun _ _ => ⟨error, rfl⟩⟩

theorem map (h : migration.Recurs settled stores one two) (f : α → β) :
    migration.Recurs settled stores (one.map f) (two.map f) := by
  refine ⟨fun hmode hsettled => by rw [h.same hmode hsettled], fun hmode hstores => ?_⟩
  obtain ⟨error, herror⟩ := h.fails hmode hstores
  exact ⟨error, by rw [herror]; rfl⟩

/-- What has failed fails again. -/
theorem exists_error {error : MigrationError} (h : migration.Recurs True True (.error error) two) :
    ∃ error, two = .error error := by
  cases hmode : migration.store.overwrite with
  | true => exact ⟨error, h.same hmode trivial⟩
  | false => exact h.fails hmode trivial

/-- What fails only when it is made again is not to be replaced. -/
theorem no_overwrite {value : α} {error : MigrationError}
    (h : migration.Recurs True stores (.ok value) (.error error)) :
    migration.store.overwrite = false := by
  rw [Bool.eq_false_iff]
  intro hmode
  exact absurd (h.same hmode trivial) (by simp)

theorem of_ok {value again : α} (h : migration.Recurs True True (.ok value) (.ok again)) :
    migration.store.overwrite = true ∧ again = value := by
  cases hmode : migration.store.overwrite with
  | true => exact ⟨rfl, Except.ok.inj (h.same hmode trivial)⟩
  | false =>
      obtain ⟨error, herror⟩ := h.fails hmode trivial
      exact absurd herror (by simp)

end Recurs

theorem upload_of_never (hnever : migration.cancelAfter? = none) (session : Session)
    (container blob : String) (content : Content) :
    let returned :=
      session.upload migration.store migration.cancelAfter? container blob content
    let outcome := migration.store.upload container blob content .never session.tree
    returned.1 = outcome.result ∧ returned.2.tree = outcome.tree := by
  rw [hnever]
  exact ⟨rfl, rfl⟩

theorem Repeats.upload (h : migration.Repeats start final first second)
    (hnever : migration.cancelAfter? = none)
    (hups : start.GoesUpFromDirectories migration.store.root) {container blob : String}
    (hne : container ≠ "") {source : Location} {held : Bytes}
    (hfile : start.entryAt source = some (.file held))
    (hapart : ¬ IsNear (start.locationOf migration.store.root) source) {before : List String}
    {last : String} (hsteps : FilePath.steps ⟨blob⟩ = before ++ [last]) (hlast : IsNameStep last) :
    let one := first.upload migration.store migration.cancelAfter? container blob (.fileAt source)
    let two := second.upload migration.store migration.cancelAfter? container blob (.fileAt source)
    GrowsTo one.2.tree final →
      migration.Recurs True True one.1 two.1 ∧ migration.Repeats start final one.2 two.2 := by
  intro one two hgrows
  have hfirst := h.first_reached.grown
  have hheld := h.first_reached.entryAt_file hups hfile hapart
  have hheldAgain := h.second_reached.entryAt_file hups hfile hapart
  have hlocation := FileTree.locationOf_eq hfirst.grows.workDir_eq migration.store.root
  have hnot : ¬ first.tree.locationOf migration.store.root <+: source := by
    rw [hlocation]
    exact fun hbelow => hapart (.inr hbelow)
  have hone := h.first_reached.upload hnever hups hne hfile hapart blob
  have htwo := h.second_reached.upload hnever hups hne hfile hapart blob
  have hstarted : GrownAt migration.store.root first.tree first.tree := .refl hfirst.plain
  have hnext := (hstarted.upload hheld container blob).grows
  obtain ⟨hresult, htree⟩ := upload_of_never hnever first container blob (.fileAt source)
  obtain ⟨hsecondResult, hsecondTree⟩ :=
    upload_of_never hnever second container blob (.fileAt source)
  rw [htree] at hgrows
  have hagain := upload_again hfirst.plain h.second_reached.grown.plain
    (hups.kept hfirst.grows) hheld hheldAgain hnot hsteps hlast
    (h.catches_up.growsTo hnext hgrows)
  cases hagain with
  | fails first_fails second_fails kept nothing =>
      have hsame : two.2.tree = second.tree := hsecondTree.trans nothing
      have hfails := hsecondResult.trans second_fails
      refine ⟨⟨fun _ _ => ?_, fun _ _ => ⟨_, hfails⟩⟩, hone, htwo, ?_, ?_⟩
      · rw [hresult, hsecondResult, first_fails, second_fails]
      · rw [hsame, htree]
        exact h.catches_up.keptBy kept
      · rw [hsame]
        exact h.standing
  | finds no_overwrite second_fails kept nothing =>
      have hsame : two.2.tree = second.tree := hsecondTree.trans nothing
      have hfails := hsecondResult.trans second_fails
      refine ⟨⟨?_, fun _ _ => ⟨_, hfails⟩⟩, hone, htwo, ?_, ?_⟩
      · simp [no_overwrite]
      · rw [hsame, htree]
        exact h.catches_up.keptBy kept
      · rw [hsame]
        exact h.standing
  | writes overwrite first_ok second_ok kept ne_root first_writes second_writes =>
      refine ⟨⟨fun _ _ => ?_, ?_⟩, hone, htwo, ?_, ?_⟩
      · rw [hresult, hsecondResult, first_ok, second_ok]
      · simp [overwrite]
      · rw [htree, hsecondTree, first_writes, second_writes]
        exact (h.catches_up.keptBy kept).put ne_root _
      · simp [overwrite]

/-! ## The files of an asset -/

/-- A file that lies apart from where it is stored, and that becomes a blob with a name. -/
structure IsStorable (start : FileTree) (base : Location) (placement : Placement)
    (file : CollectedFile) : Prop where
  steady : CollectedFile.IsSteady start base file.path
  always_file : AlwaysFile start file.path
  named : ∃ before last,
    FilePath.steps ⟨placement.blobName file.name⟩ = before ++ [last] ∧ IsNameStep last

theorem isStorable_of_collected {root sourceRoot : FilePath} {inputs : List FilePath}
    {files : List CollectedFile} {placement : Placement} (hplacement : placement.IsExpanded)
    (hplain : start.IsPlain)
    (hapart : ∀ input ∈ inputs, LiesApart root (sourceRoot.join input) start)
    (h : CollectedFile.collect start sourceRoot inputs = .ok files) :
    ∀ file ∈ files, IsStorable start (start.locationOf root) placement file := by
  intro file hfile
  refine ⟨CollectedFile.isSteady_of_collected hplain hapart h file hfile,
    CollectedFile.alwaysFile_of_collected hplain.toIsWellFormed h file hfile, ?_⟩
  have hway := CollectedFile.isWay_of_collected hplain.toIsWellFormed h file hfile
  obtain ⟨before, last, hsteps, hlast⟩ := hway.steps_end
  refine ⟨FilePath.steps ⟨placement.namePrefix⟩ ++ before, last, ?_, hlast⟩
  rw [Placement.steps_blobName hplacement.ends_with_slash, hsteps, List.append_assoc]

/-- Files are stored again, up to the first that fails again. Where blobs may not be replaced, this
is the first of all. -/
theorem Repeats.uploadFiles (h : migration.Repeats start final first second)
    (hnever : migration.cancelAfter? = none)
    (hups : start.GoesUpFromDirectories migration.store.root) {placement : Placement}
    (hne : placement.container ≠ "") {files : List CollectedFile}
    (hfiles : ∀ file ∈ files,
      IsStorable start (start.locationOf migration.store.root) placement file)
    (hgrows : GrowsTo (migration.uploadFiles placement files first).2.tree final) :
    migration.Recurs True (files ≠ []) (migration.uploadFiles placement files first).1
        (migration.uploadFiles placement files second).1 ∧
      migration.Repeats start final (migration.uploadFiles placement files first).2
        (migration.uploadFiles placement files second).2 := by
  induction files generalizing first second with
  | nil => exact ⟨⟨fun _ _ => rfl, fun _ hnone => absurd rfl hnone⟩, h⟩
  | cons file rest ih =>
      have hrest := fun other hother => hfiles other (List.mem_cons_of_mem _ hother)
      obtain ⟨hsteady, _, before, last, hsteps, hlast⟩ := hfiles file List.mem_cons_self
      have hlookUp := hsteady.lookUp_eq hups h.first_reached.grown
      have hlookUpAgain := hsteady.lookUp_eq hups h.second_reached.grown
      rcases hsteady with ⟨place, held, hfound, hapart⟩ | ⟨error, _, herror⟩
      · rw [hfound] at hlookUp hlookUpAgain
        have hupload := h.upload hnever hups hne (entryAt_of_lookUp hfound) hapart hsteps hlast
        rcases htwo : second.upload migration.store migration.cancelAfter? placement.container
          (placement.blobName file.name) (.fileAt place) with ⟨again, two⟩
        rcases hone : first.upload migration.store migration.cancelAfter? placement.container
          (placement.blobName file.name) (.fileAt place) with ⟨error | written, one⟩
        · rw [uploadFiles_of_error hlookUp hone] at hgrows ⊢
          simp only [hone, htwo] at hupload
          obtain ⟨hrecurs, hafter⟩ := hupload hgrows
          obtain ⟨other, rfl⟩ := hrecurs.exists_error
          rw [uploadFiles_of_error hlookUpAgain htwo]
          exact ⟨⟨hrecurs.same, fun _ _ => ⟨other, rfl⟩⟩, hafter⟩
        · rw [uploadFiles_of_ok hlookUp hone] at hgrows ⊢
          simp only [hone, htwo] at hupload hgrows
          -- the other files of the first run add to what this one has left
          have hreached := h.first_reached.upload hnever hups hne (entryAt_of_lookUp hfound) hapart
            (placement.blobName file.name)
          rw [hone] at hreached
          have halways : ∀ other ∈ rest, AlwaysFile start other.path :=
            fun other hother => (hrest other hother).always_file
          have hothers := uploadFiles_grown hnever (.refl hreached.grown.plain)
            (fun other hother => (halways other hother).later hreached.grown.grows) placement
          obtain ⟨hrecurs, hafter⟩ := hupload (hothers.grows.trans hgrows)
          cases again with
          | error error =>
              have hmode := hrecurs.no_overwrite
              have hlast := hreached.uploadFiles hnever hups hne halways
              rw [uploadFiles_of_error hlookUpAgain htwo]
              exact ⟨⟨by simp [hmode], fun _ _ => ⟨error, rfl⟩⟩,
                .of_standing hlast hafter.second_reached (hafter.standing hmode)⟩
          | ok count =>
              obtain ⟨hmode, rfl⟩ := hrecurs.of_ok
              rw [uploadFiles_of_ok hlookUpAgain htwo]
              obtain ⟨hrestRecurs, hlast⟩ := ih hafter hrest hgrows
              exact ⟨⟨(hrestRecurs.map _).same, by simp [hmode]⟩, hlast⟩
      · rw [herror] at hlookUp hlookUpAgain
        rw [uploadFiles_of_lookUp_error hlookUp, uploadFiles_of_lookUp_error hlookUpAgain]
        exact ⟨.error migration _ _ _, h⟩

/-! ## One asset -/

theorem Repeats.remembering (h : migration.Repeats start final first second)
    (mapper memory : Mapper) :
    migration.Repeats start final { first with mapper } { second with mapper := memory } :=
  ⟨⟨h.first_reached.alone_grown, h.first_reached.grown, h.first_reached.ahead⟩,
    ⟨h.second_reached.alone_grown, h.second_reached.grown, h.second_reached.ahead⟩,
    h.catches_up, h.standing⟩

theorem goesUp_of_collected {root sourceRoot : FilePath} {tree : FileTree} {inputs : List FilePath}
    {files : List CollectedFile}
    (hapart : ∀ input ∈ inputs, LiesApart root (sourceRoot.join input) start)
    (h : CollectedFile.collect tree sourceRoot inputs = .ok files) (hsome : files ≠ []) :
    start.GoesUpFromDirectories root := by
  cases inputs with
  | nil => exact absurd (Except.ok.inj h).symm hsome
  | cons input rest => exact (hapart input List.mem_cons_self).root_goes_up

theorem Reached.migrateAsset {session : Session} (h : migration.Reached start session)
    (hnever : migration.cancelAfter? = none)
    (hapart : ∀ input ∈ entry.files,
      LiesApart migration.store.root (migration.sourceRoot.join input) start) :
    migration.Reached start (migration.migrateAsset .run manifest entry session).2 := by
  obtain ⟨mapper, hafter | ⟨placement, files, _, hplacement, hfiles, hafter⟩⟩ :=
    migration.migrateAsset_session .run manifest entry session
  · rw [hafter]
    exact ⟨h.alone_grown, h.grown, h.ahead⟩
  · by_cases hsome : files = []
    · rw [hafter, hsome]
      exact ⟨h.alone_grown, h.grown, h.ahead⟩
    · exact Alike.migrateAsset_elsewhere h hnever (goesUp_of_collected hapart hfiles hsome)
        (containerOf?_ne_empty migration manifest entry)

def HasFiles (migration : Migration) (tree : FileTree) (entry : AssetEntry) : Prop :=
  ∃ file rest,
    CollectedFile.collect tree migration.sourceRoot entry.files = .ok (file :: rest)

/-- Names in the inputs of an asset that are too long are looked for in directories that are there,
so that they fail for the same reason ever after. -/
def LongNamesSettled (migration : Migration) (tree : FileTree) (entry : AssetEntry) : Prop :=
  ∀ input ∈ entry.files, tree.LongNamesInDirectories (migration.sourceRoot.join input)

/-- What could not be collected cannot be collected later. -/
theorem Reached.collect_error {session : Session} (h : migration.Reached start session)
    (hplain : start.IsPlain)
    (hapart : ∀ input ∈ entry.files,
      LiesApart migration.store.root (migration.sourceRoot.join input) start) {error : IoError}
    (herror : CollectedFile.collect start migration.sourceRoot entry.files = .error error) :
    ∃ later,
      CollectedFile.collect session.tree migration.sourceRoot entry.files = .error later ∧
        (migration.LongNamesSettled start entry → later = error) := by
  cases hlater : CollectedFile.collect session.tree migration.sourceRoot entry.files with
  | ok files =>
      have hbefore := CollectedFile.collect_before hplain h.grown hapart hlater
      rw [herror] at hbefore
      exact absurd hbefore (by simp)
  | error later =>
      refine ⟨later, rfl, fun hsettled => ?_⟩
      have hsame := CollectedFile.collect_eq hplain h.grown h.ahead fun input hinput =>
        ⟨hapart input hinput, hsettled input hinput⟩
      rw [hlater, herror] at hsame
      exact Except.error.inj hsame

theorem Repeats.storeInputs (h : migration.Repeats start final first second)
    (hnever : migration.cancelAfter? = none) (hplain : start.IsPlain) {placement : Placement}
    (hplacement : placement.IsExpanded)
    (hapart : ∀ input ∈ entry.files,
      LiesApart migration.store.root (migration.sourceRoot.join input) start)
    (hgrows : GrowsTo (migration.storeInputs placement entry.files first).2.tree final) :
    migration.Recurs (migration.LongNamesSettled start entry) (migration.HasFiles start entry)
        (migration.storeInputs placement entry.files first).1
        (migration.storeInputs placement entry.files second).1 ∧
      migration.Repeats start final (migration.storeInputs placement entry.files first).2
        (migration.storeInputs placement entry.files second).2 := by
  cases hfiles : CollectedFile.collect start migration.sourceRoot entry.files with
  | error error =>
      obtain ⟨one, hone, hsettledOne⟩ := h.first_reached.collect_error hplain hapart hfiles
      obtain ⟨two, htwo, hsettledTwo⟩ := h.second_reached.collect_error hplain hapart hfiles
      simp only [Migration.storeInputs, hone, htwo]
      refine ⟨⟨fun _ hsettled => ?_, fun _ _ => ⟨_, rfl⟩⟩, h⟩
      rw [hsettledOne hsettled, hsettledTwo hsettled]
  | ok files =>
      have hcollect := CollectedFile.collect_later hplain h.first_reached.grown hapart hfiles
      have hcollectAgain := CollectedFile.collect_later hplain h.second_reached.grown hapart hfiles
      rw [storeInputs_of_collected hcollect] at hgrows ⊢
      rw [storeInputs_of_collected hcollectAgain]
      cases files with
      | nil =>
          refine ⟨⟨fun _ _ => rfl, fun _ hstores => ?_⟩, h⟩
          obtain ⟨file, rest, hcollected⟩ := hstores
          rw [hfiles] at hcollected
          exact absurd (Except.ok.inj hcollected) (by simp)
      | cons file rest =>
          have hups := goesUp_of_collected hapart hfiles (by simp)
          obtain ⟨hrecurs, hafter⟩ := h.uploadFiles hnever hups
            hplacement.container.not_empty (isStorable_of_collected hplacement hplain hapart hfiles)
            hgrows
          have hmapped := hrecurs.map fun bytes : Nat => AssetUpload.mk placement
            ((file :: rest).map fun file => placement.blobName file.name) bytes
          exact ⟨⟨fun hmode _ => hmapped.same hmode trivial,
            fun hmode _ => hmapped.fails hmode (by simp)⟩, hafter⟩

theorem Repeats.migrateAsset (h : migration.Repeats start final first second)
    (hnever : migration.cancelAfter? = none) (hplain : start.IsPlain)
    (hapart : ∀ input ∈ entry.files,
      LiesApart migration.store.root (migration.sourceRoot.join input) start)
    (hgrows : GrowsTo (migration.migrateAsset .run manifest entry first).2.tree final) :
    migration.Recurs (migration.LongNamesSettled start entry) (migration.HasFiles start entry)
        (migration.migrateAsset .run manifest entry first).1
        (migration.migrateAsset .run manifest entry second).1 ∧
      migration.Repeats start final (migration.migrateAsset .run manifest entry first).2
        (migration.migrateAsset .run manifest entry second).2 := by
  cases hplacement : migration.placementOf manifest entry with
  | error error =>
      obtain ⟨mapper, hone⟩ := migrateAsset_of_no_placement hplacement first
      obtain ⟨memory, htwo⟩ := migrateAsset_of_no_placement hplacement second
      rw [hone, htwo]
      exact ⟨.error migration _ _ _, h.remembering mapper memory⟩
  | ok placement =>
      obtain ⟨mapper, hone⟩ := migrateAsset_of_placement hplacement first
      obtain ⟨memory, htwo⟩ := migrateAsset_of_placement hplacement second
      rw [hone] at hgrows ⊢
      rw [htwo]
      exact (h.remembering mapper memory).storeInputs hnever hplain
        (isExpanded_of_placement hplacement) hapart hgrows

/-! ## All assets -/

theorem Repeats.looked (h : migration.Repeats start final first second) :
    migration.Repeats start final (first.looked migration.cancelAfter?)
      (second.looked migration.cancelAfter?) := by
  refine ⟨Alike.looked h.first_reached, Alike.looked h.second_reached, ?_, ?_⟩
  · rw [Session.tree_looked, Session.tree_looked]
    exact h.catches_up
  · rw [Session.tree_looked]
    exact h.standing

theorem attempt_assets_grown (hnever : migration.cancelAfter? = none) (manifest : Manifest)
    (entries : List AssetEntry) {session : Session} (hplain : session.tree.IsPlain) :
    GrownAt migration.store.root session.tree
      (migration.attempt (fun entry : AssetEntry => entry.asset.name)
        (migration.migrateAsset .run manifest) entries session).2.tree := by
  apply attempt_invariant fun later =>
    GrownAt migration.store.root session.tree later.tree
  · intro middle hmiddle
    rw [Session.tree_looked]
    exact hmiddle
  · intro entry _ middle hmiddle
    exact hmiddle.trans (migrateUnit_grown hnever manifest (.asset entry) hmiddle.plain)
  · exact .refl hplain

/-- The reports on assets in both runs: if blobs may be replaced, the same, provided that nothing
fails for another reason, and if not, failures of all that have files. -/
structure AllRecur (migration : Migration) (start : FileTree) (entries : List AssetEntry)
    (one two : List (UnitReport AssetUpload) × Bool) : Prop where
  same : migration.store.overwrite = true →
    (∀ entry ∈ entries, migration.LongNamesSettled start entry) → two = one
  fail : migration.store.overwrite = false → ∀ (index : Nat) (entry : AssetEntry),
    entries[index]? = some entry → migration.HasFiles start entry →
      ∃ error, two.1[index]? = some ⟨entry.asset.name, .error error⟩

theorem Repeats.attempt (h : migration.Repeats start final first second)
    (hnever : migration.cancelAfter? = none) (hplain : start.IsPlain) {entries : List AssetEntry}
    (hapart : ∀ entry ∈ entries, ∀ input ∈ entry.files,
      LiesApart migration.store.root (migration.sourceRoot.join input) start)
    (hgrows : GrowsTo (migration.attempt (fun entry : AssetEntry => entry.asset.name)
      (migration.migrateAsset .run manifest) entries first).2.tree final) :
    let run := migration.attempt (fun entry : AssetEntry => entry.asset.name)
      (migration.migrateAsset .run manifest) entries
    migration.AllRecur start entries (run first).1 (run second).1 ∧
      migration.Repeats start final (run first).2 (run second).2 := by
  induction entries generalizing first second with
  | nil => exact ⟨⟨fun _ _ => rfl, by simp⟩, h⟩
  | cons entry rest ih =>
      have hown := hapart entry List.mem_cons_self
      have hothers := fun other hother => hapart other (List.mem_cons_of_mem _ hother)
      simp only [attempt_cons_of_never hnever] at hgrows ⊢
      have hlooked := h.looked
      have hunit := migrateUnit_grown hnever manifest (.asset entry)
        hlooked.first_reached.grown.plain
      have hlast := attempt_assets_grown hnever manifest rest hunit.plain
      obtain ⟨hrecurs, hafter⟩ :=
        hlooked.migrateAsset hnever hplain hown (hlast.grows.trans hgrows)
      obtain ⟨hall, hend⟩ := ih hafter hothers hgrows
      refine ⟨⟨fun hmode hsettled => ?_, fun hmode index other hother hfiles => ?_⟩, hend⟩
      · have hsame := hrecurs.same hmode (hsettled entry List.mem_cons_self)
        have hrest := hall.same hmode fun other hother =>
          hsettled other (List.mem_cons_of_mem _ hother)
        simp only [hsame, hrest]
      · cases index with
        | zero =>
            obtain rfl : entry = other := by simpa using hother
            obtain ⟨error, herror⟩ := hrecurs.fails hmode hfiles
            exact ⟨error, by simp only [List.getElem?_cons_zero, herror]⟩
        | succ index =>
            rw [List.getElem?_cons_succ] at hother
            simp only [List.getElem?_cons_succ]
            exact hall.fail hmode index other hother hfiles

theorem Reached.attempt {session : Session} (h : migration.Reached start session)
    (hnever : migration.cancelAfter? = none) {entries : List AssetEntry}
    (hapart : ∀ entry ∈ entries, ∀ input ∈ entry.files,
      LiesApart migration.store.root (migration.sourceRoot.join input) start) :
    migration.Reached start (migration.attempt (fun entry : AssetEntry => entry.asset.name)
      (migration.migrateAsset .run manifest) entries session).2 := by
  apply attempt_invariant (migration.Reached start)
  · intro middle hmiddle
    exact Alike.looked hmiddle
  · intro entry hentry middle hmiddle
    exact hmiddle.migrateAsset hnever (hapart entry hentry)
  · exact h

/-! ## Whole runs -/

theorem attempt_keys_eq (hnever : migration.cancelAfter? = none) (keys : List ContentKey)
    (one two : Session) :
    (migration.attempt (fun key : ContentKey => key.id.toString) migration.mapKey keys one).1 =
      (migration.attempt (fun key : ContentKey => key.id.toString) migration.mapKey keys
        two).1 := by
  induction keys generalizing one two with
  | nil => rfl
  | cons key rest ih =>
      simp only [attempt_cons_of_never hnever]
      rw [mapKey_foretold migration key _ (two.looked migration.cancelAfter?), ih]

theorem execute_report_eq (hnever : migration.cancelAfter? = none)
    (hcontainers : manifest.containers = []) {one two : Session}
    (h : (migration.attemptAssets manifest two).1 = (migration.attemptAssets manifest one).1) :
    (migration.execute .run manifest two).1 = (migration.execute .run manifest one).1 := by
  have hkeys := attempt_keys_eq hnever manifest.keys (migration.attemptAssets manifest two).2
    (migration.attemptAssets manifest one).2
  unfold attemptAssets at h hkeys
  simp only [execute_eq, attempt_no_containers hcontainers, Bool.false_eq_true, if_false, h]
  split
  · rfl
  · simp only [hkeys]

/-- A run without containers that is never cancelled, made again from the tree that it has left,
leaves that tree as it is. If blobs may be replaced, it makes the same report, provided that names
that are too long are looked for in directories that are there at the start of the first run. If
not, it reports a failure of every asset of which a file is collected, at the start of the first run
or of this one. The inputs neither lie in the root of the store nor contain it, and their paths and
that of the store go up only from directories that are there at the start of the first run. -/
theorem run_again_is_stable (migration : Migration) (manifest : Manifest) {session again : Session}
    (hagain : again.tree = (migration.execute .run manifest session).2.tree)
    (hplain : session.tree.IsPlain) (hnever : migration.cancelAfter? = none)
    (hcontainers : manifest.containers = [])
    (hapart : ∀ entry ∈ manifest.assets, ∀ input ∈ entry.files,
      LiesApart migration.store.root (migration.sourceRoot.join input) session.tree) :
    let first := migration.execute .run manifest session
    let second := migration.execute .run manifest again
    second.2.tree = first.2.tree ∧
      (migration.store.overwrite = true →
        (∀ entry ∈ manifest.assets, migration.LongNamesSettled session.tree entry) →
          second.1 = first.1) ∧
      (migration.store.overwrite = false → ∀ (index : Nat) (entry : AssetEntry),
        manifest.assets[index]? = some entry →
          migration.HasFiles session.tree entry ∨ migration.HasFiles again.tree entry →
          ∃ error, second.1.assets[index]? = some ⟨entry.asset.name, .error error⟩) := by
  intro first second
  obtain ⟨_, htree⟩ := execute_assets migration hcontainers session
  obtain ⟨hreports, hlastTree⟩ := execute_assets migration hcontainers again
  have hstart : migration.Reached session.tree session := .refl hplain rfl rfl
  have hend : migration.Reached session.tree (migration.attemptAssets manifest session).2 :=
    hstart.attempt hnever hapart
  have hsame : again.tree = (migration.attemptAssets manifest session).2.tree := hagain.trans htree
  have hreached : migration.Reached session.tree again := by
    refine ⟨hend.alone_grown, ?_, ?_⟩
    · rw [hsame]
      exact hend.grown
    · rw [hsame]
      exact hend.ahead
  have hrepeats : migration.Repeats session.tree again.tree session again :=
    .of_standing hstart hreached rfl
  have hgrows : GrowsTo (migration.attemptAssets manifest session).2.tree again.tree := by
    rw [hsame]
    exact (KeptBy.refl _).toGrowsTo
  obtain ⟨hrecur, hlast⟩ := hrepeats.attempt hnever hplain hapart hgrows
  refine ⟨?_, ?_, ?_⟩
  · have hcaught := hlast.catches_up
    have hfirst : (migration.attempt (fun entry : AssetEntry => entry.asset.name)
      (migration.migrateAsset .run manifest) manifest.assets session).2.tree = again.tree :=
      hsame.symm
    rw [hfirst] at hcaught
    exact hlastTree.trans (hcaught.eq_final.trans hagain)
  · intro hmode hsettled
    exact execute_report_eq hnever hcontainers (hrecur.same hmode hsettled)
  · intro hmode index entry hentry hfiles
    have hthere : migration.HasFiles session.tree entry := by
      rcases hfiles with hstarted | ⟨file, rest, hfile⟩
      · exact hstarted
      · exact ⟨file, rest, CollectedFile.collect_before hplain hreached.grown
          (hapart entry (List.mem_of_getElem? hentry)) hfile⟩
    obtain ⟨error, herror⟩ := hrecur.fail hmode index entry hentry hthere
    exact ⟨error, hreports ▸ herror⟩

/-! ## A run that is stable, and three that are not -/

namespace MadeDirectories

def replacingIn (root : String) : Migration :=
  { storingIn root with store := ⟨⟨root⟩, true⟩ }

def storeMadeLate (input : String) : Manifest where
  assets := [asset "two" input, asset "one" "in/a"]

def once (migration : Migration) (manifest : Manifest) : MigrationReport × Session :=
  migration.execute .run manifest { tree }

def twice (migration : Migration) (manifest : Manifest) : MigrationReport × Session :=
  migration.execute .run manifest { tree := (once migration manifest).2.tree }

theorem apart_of_store : ∀ entry ∈ (storeMadeLate "in/../in/b").assets, ∀ input ∈ entry.files,
    LiesApart ⟨"store"⟩ (FilePath.join ⟨"."⟩ input) tree := by
  decide +kernel

end MadeDirectories

/-- Inputs that go up from a directory of the start are stored the same way again, or not at all. -/
theorem two_assets_run_again :
    MadeDirectories.tree.IsPlain ∧
      (∀ entry ∈ (MadeDirectories.storeMadeLate "in/../in/b").assets, ∀ input ∈ entry.files,
        LiesApart ⟨"store"⟩ (FilePath.join ⟨"."⟩ input) MadeDirectories.tree) ∧
      (MadeDirectories.twice (MadeDirectories.replacingIn "store")
          (MadeDirectories.storeMadeLate "in/../in/b")).1 =
        (MadeDirectories.once (MadeDirectories.replacingIn "store")
          (MadeDirectories.storeMadeLate "in/../in/b")).1 ∧
      (MadeDirectories.twice (MadeDirectories.storingIn "store")
          (MadeDirectories.storeMadeLate "in/../in/b")).2.tree =
        (MadeDirectories.once (MadeDirectories.storingIn "store")
          (MadeDirectories.storeMadeLate "in/../in/b")).2.tree ∧
      ∃ error,
        (MadeDirectories.twice (MadeDirectories.storingIn "store")
          (MadeDirectories.storeMadeLate "in/../in/b")).1.assets[0]? =
            some ⟨"two", .error error⟩ := by
  have hplain : MadeDirectories.tree.IsPlain := by decide +kernel
  have hsettled : ∀ entry ∈ (MadeDirectories.storeMadeLate "in/../in/b").assets,
      (MadeDirectories.replacingIn "store").LongNamesSettled MadeDirectories.tree entry := by
    unfold LongNamesSettled
    decide +kernel
  have hfiles : (MadeDirectories.storingIn "store").HasFiles MadeDirectories.tree
      (MadeDirectories.asset "two" "in/../in/b") :=
    ⟨⟨⟨"./in/../in/b"⟩, "b"⟩, [], by decide +kernel⟩
  have hentry : (MadeDirectories.storeMadeLate "in/../in/b").assets[0]? =
      some (MadeDirectories.asset "two" "in/../in/b") := rfl
  have hagain : ∀ (migration : Migration) (manifest : Manifest) (session : Session),
      Session.tree { tree := (migration.execute .run manifest session).2.tree } =
        (migration.execute .run manifest session).2.tree :=
    fun _ _ _ => rfl
  unfold MadeDirectories.twice MadeDirectories.once
  obtain ⟨_, hsame, _⟩ := run_again_is_stable (MadeDirectories.replacingIn "store") _
    (hagain _ _ { tree := MadeDirectories.tree }) hplain rfl rfl MadeDirectories.apart_of_store
  obtain ⟨htree, _, hfails⟩ := run_again_is_stable (MadeDirectories.storingIn "store") _
    (hagain _ _ { tree := MadeDirectories.tree }) hplain rfl rfl MadeDirectories.apart_of_store
  exact ⟨hplain, MadeDirectories.apart_of_store, hsame rfl hsettled, htree,
    hfails rfl 0 _ hentry (.inl hfiles)⟩

/-- A run without containers, links or a cancellation, with inputs of all assets that neither lie in
the root of the store nor contain it. -/
structure IsPlainRun (migration : Migration) (manifest : Manifest) (tree : FileTree) : Prop where
  plain : tree.IsPlain
  never : migration.cancelAfter? = none
  no_containers : manifest.containers = []
  apart : ∀ entry ∈ manifest.assets, ∀ input ∈ entry.files,
    ¬ IsNear (tree.locationOf migration.store.root)
      (tree.locationOf (migration.sourceRoot.join input))

instance (migration : Migration) (manifest : Manifest) (tree : FileTree) :
    Decidable (migration.IsPlainRun manifest tree) :=
  decidable_of_iff
    (tree.IsPlain ∧ migration.cancelAfter? = none ∧ manifest.containers = [] ∧
      ∀ entry ∈ manifest.assets, ∀ input ∈ entry.files,
        ¬ IsNear (tree.locationOf migration.store.root)
          (tree.locationOf (migration.sourceRoot.join input)))
    ⟨fun h => ⟨h.1, h.2.1, h.2.2.1, h.2.2.2⟩, fun h => ⟨h.plain, h.never, h.no_containers, h.apart⟩⟩

/-- Such a run with blobs that may be replaced, after which the same run reports an asset
otherwise. -/
def Drifts (migration : Migration) (manifest : Manifest) (index : Nat) : Prop :=
  migration.IsPlainRun manifest MadeDirectories.tree ∧ migration.store.overwrite = true ∧
    (MadeDirectories.twice migration manifest).1.assets[index]?.map UnitReport.failure? ≠
      (MadeDirectories.once migration manifest).1.assets[index]?.map UnitReport.failure?

namespace MadeDirectories

def afterLongInput : Session where
  tree := tree
  mapper := (Mapper.new.expandAsset longAsset.asset (.ofManifest (storeMadeLate longInput))
    templates.path.text).2

theorem containerOf?_longAsset : (replacingIn "x/store").containerOf? (storeMadeLate longInput)
    longAsset = some "two" := by
  decide +kernel

theorem failure_longInput {start : FileTree} {error : IoError}
    (h : CollectedFile.collect start ⟨"."⟩ [⟨longInput⟩] = .error error) :
    ((replacingIn "x/store").execute .run (storeMadeLate longInput)
        { tree := start }).1.assets[0]?.map UnitReport.failure? =
      some (some (MigrationError.io error).message) := by
  have hentry : (storeMadeLate longInput).assets[0]? = some longAsset := rfl
  exact failure_of_collect_error rfl rfl hentry containerOf?_longAsset { tree := start } h

theorem attempt_longInput :
    ((replacingIn "x/store").attemptAssets (storeMadeLate longInput) { tree }).2 =
      ((replacingIn "x/store").attempt (fun entry : AssetEntry => entry.asset.name)
        ((replacingIn "x/store").migrateAsset .run (storeMadeLate longInput)) [asset "one" "in/a"]
        afterLongInput).2 := by
  have hplain : tree.IsPlain := by decide +kernel
  have hfree : tree.entryAt ["x"] = none := by decide +kernel
  have hmissing : (replacingIn "x/store").migrateAsset .run (storeMadeLate longInput) longAsset
      { tree } = (.error (.io .notFound), afterLongInput) :=
    migrateAsset_of_collect_error containerOf?_longAsset ((collect_longInput hplain rfl).1 hfree)
  have hlooked : Session.looked { tree } (replacingIn "x/store").cancelAfter? = { tree } := rfl
  have hassets : (storeMadeLate longInput).assets = [longAsset, asset "one" "in/a"] := rfl
  rw [attemptAssets, hassets, attempt_cons_of_never rfl, hlooked, hmissing]

theorem once_longInput :
    (once (replacingIn "x/store") (storeMadeLate longInput)).2.tree.IsPlain ∧
      (once (replacingIn "x/store") (storeMadeLate longInput)).2.tree.workDir = [] ∧
      (once (replacingIn "x/store") (storeMadeLate longInput)).2.tree.entryAt ["x"] =
        some .directory := by
  have hnone : (storeMadeLate longInput).containers = [] := rfl
  obtain ⟨_, htree⟩ := execute_assets (replacingIn "x/store") hnone { tree }
  rw [once, htree, attempt_longInput]
  decide +kernel

end MadeDirectories

/-- Once the second asset has made its directory, the name of the first that is too long is refused
there. -/
theorem long_name_drifts :
    (MadeDirectories.replacingIn "x/store").Drifts
      (MadeDirectories.storeMadeLate MadeDirectories.longInput) 0 := by
  have hplain : MadeDirectories.tree.IsPlain := by decide +kernel
  have hsecond : ¬ IsNear (MadeDirectories.tree.locationOf ⟨"x/store"⟩)
      (MadeDirectories.tree.locationOf (FilePath.join ⟨"."⟩ ⟨"in/a"⟩)) := by
    decide +kernel
  refine ⟨⟨hplain, rfl, rfl, ?_⟩, rfl, ?_⟩
  · intro entry hentry input hinput
    rcases List.mem_pair.mp hentry with rfl | rfl
    · rw [List.mem_singleton.mp hinput]
      exact MadeDirectories.not_isNear_longInput
    · rw [List.mem_singleton.mp hinput]
      exact hsecond
  · have hfree : MadeDirectories.tree.entryAt ["x"] = none := by decide +kernel
    obtain ⟨hagainPlain, hwork, hdirectory⟩ := MadeDirectories.once_longInput
    have hmissing := (MadeDirectories.collect_longInput hplain rfl).1 hfree
    have hrefused := (MadeDirectories.collect_longInput hagainPlain hwork).2 hdirectory
    rw [MadeDirectories.twice, MadeDirectories.failure_longInput hrefused, MadeDirectories.once,
      MadeDirectories.failure_longInput hmissing]
    decide +kernel

/-- Uploading the second asset makes a directory from which the first goes up, in which it looks for
a name that is too long, or which is the first itself: the run made again finds that directory. From
the first one it goes up to a file that it stores, also where blobs may not be replaced. -/
theorem made_directories_drift :
    (MadeDirectories.replacingIn "x/store").Drifts (MadeDirectories.storeMadeLate "x/../in/b") 0 ∧
      (MadeDirectories.replacingIn "x/store").Drifts
        (MadeDirectories.storeMadeLate MadeDirectories.longInput) 0 ∧
      (MadeDirectories.replacingIn "x/../store").Drifts (MadeDirectories.storeMadeLate "x") 0 ∧
      (MadeDirectories.storingIn "x/store").IsPlainRun (MadeDirectories.storeMadeLate "x/../in/b")
        MadeDirectories.tree ∧
      (MadeDirectories.once (MadeDirectories.storingIn "x/store")
          (MadeDirectories.storeMadeLate "x/../in/b")).2.tree.entryAt ["x", "store", "two", "b"] =
        none ∧
      (MadeDirectories.twice (MadeDirectories.storingIn "x/store")
          (MadeDirectories.storeMadeLate "x/../in/b")).2.tree.entryAt ["x", "store", "two", "b"] =
        some (.file [2]) ∧
      (MadeDirectories.twice (MadeDirectories.storingIn "x/store")
          (MadeDirectories.storeMadeLate "x/../in/b")).1.assets[0]?.map UnitReport.failure? =
        some none := by
  refine ⟨⟨?_, rfl, ?_⟩, long_name_drifts, ⟨?_, rfl, ?_⟩, ?_, ?_, ?_, ?_⟩ <;> decide +kernel

end Migration

end MediaMigration
