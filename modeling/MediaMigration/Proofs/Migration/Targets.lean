import MediaMigration.Proofs.BlobStore.Names
import MediaMigration.Proofs.Migration.Collection
import MediaMigration.Proofs.Migration.Lasting
import MediaMigration.Proofs.ResourceName.LegalName
import MediaMigration.Proofs.Template.Substitution

/-!
# Targets are accepted by the store

An expanded name has no full stop and starts with a letter or a digit. So the container in
front of its first slash is the name of one directory, and what stands behind it cannot lead
up. The names of collected files and of listed blobs lead down as well, and a prefix in front of
them changes nothing about that: no target of a migration is refused for its names.
-/

namespace MediaMigration

open FileTree BlobStore

/-! ## Placements of expanded names -/

structure Placement.IsExpanded (placement : Placement) : Prop where
  container : IsContainerName placement.container
  no_full_stop : '.' ∉ placement.namePrefix.toList
  ends_with_slash : placement.EndsWithSlash

namespace Placement

theorem isContainerName_of_chars {chars : List Char} (hne : chars ≠ []) (hslash : '/' ∉ chars)
    (hstop : '.' ∉ chars) : IsContainerName (String.ofList chars) := by
  have hchars : (String.ofList chars).toList = chars := String.toList_ofList
  refine ⟨?_, ?_, ?_, ?_⟩
  · intro hempty
    rw [hempty] at hchars
    exact hne hchars.symm
  · rw [hchars]
    exact hslash
  · intro hhere
    rw [hhere] at hchars
    exact hstop (by rw [← hchars]; decide)
  · intro hup
    rw [hup] at hchars
    exact hstop (by rw [← hchars]; decide)

theorem isContainerName_clampContainer (text : List Char) :
    IsContainerName (String.ofList (clampContainer
      ((ResourceName.sanitizeChars text).takeWhile (· ≠ '/')))) := by
  obtain ⟨first, rest, hstart, halpha⟩ := ResourceName.startsAlphanumeric_sanitizeChars text
  have hfirst : first ≠ '/' := ResourceName.ne_mark_of_alphanumeric halpha '/' (by decide)
  have hclean : ∀ c ∈ (ResourceName.sanitizeChars text).takeWhile (· ≠ '/'),
      ResourceName.IsClean c := by
    intro c hc
    exact ResourceName.isClean_of_mem_sanitizeChars ((List.takeWhile_sublist _).mem hc)
  have hlower := Unicode.lowercase_of_isSettled fun c hc => (hclean c hc).1
  rw [clampContainer, hlower]
  refine isContainerName_of_chars ?_ ?_ ?_
  · rw [hstart, List.takeWhile_cons_of_pos (by simpa using hfirst)]
    simp [ResourceName.maxLength]
  · intro hmem
    have hnot := List.mem_takeWhile_imp (List.mem_of_mem_take hmem)
    simp at hnot
  · intro hmem
    have hnot := (hclean '.' (List.mem_of_mem_take hmem)).2
    exact hnot (by decide)

theorem isExpanded_ofName (text : List Char) :
    (ofName (String.ofList (ResourceName.sanitizeChars text))).IsExpanded := by
  have hends := endsWithSlash_ofName (String.ofList (ResourceName.sanitizeChars text))
  have hclean : '.' ∉ ResourceName.sanitizeChars text := by
    intro hmem
    exact (ResourceName.isClean_of_mem_sanitizeChars hmem).2 (by decide)
  have hcontainer := isContainerName_clampContainer text
  unfold ofName at hends ⊢
  simp only [String.toList_ofList] at hends ⊢
  split at hends
  · next hnone =>
      -- without a slash the whole name is the container
      have hall : (ResourceName.sanitizeChars text).takeWhile (· ≠ '/') =
          ResourceName.sanitizeChars text := by
        have hsplit := List.takeWhile_append_dropWhile (p := fun c => decide (c ≠ '/'))
          (l := ResourceName.sanitizeChars text)
        rw [hnone, List.append_nil] at hsplit
        exact hsplit
      rw [hall] at hcontainer
      exact ⟨hcontainer, by simp, hends⟩
  · next slash rest hrest =>
      refine ⟨hcontainer, ?_, hends⟩
      have hbehind : '.' ∉ rest := by
        intro hmem
        have hdropped : '.' ∈ (ResourceName.sanitizeChars text).dropWhile (· ≠ '/') := by
          rw [hrest]
          exact List.mem_cons_of_mem _ hmem
        exact hclean ((List.dropWhile_suffix _).subset hdropped)
      rw [String.toList_ofList, endWithSlash]
      split
      · exact hbehind
      · simp [hbehind]

variable {placement : Placement} {name : String}

theorem head?_of_first_segment (h : (FilePath.segments ⟨name⟩).head? = some ".") :
    name.toList.head? = some '.' := by
  rw [FilePath.segments] at h
  cases hchars : name.toList with
  | nil => simp [hchars, Text.splitAt] at h
  | cons c rest =>
      rw [hchars, Text.splitAt] at h
      by_cases hslash : c = '/'
      · simp [hslash] at h
      · rw [if_neg hslash] at h
        cases hs : Text.splitAt '/' rest with
        | nil => exact absurd hs (Text.splitAt_ne_nil '/' rest)
        | cons part parts =>
            simp only [hs, List.map_cons, List.head?_cons, Option.some.injEq] at h
            have hpart : c :: part = ['.'] := by
              have hsame := congrArg String.toList h
              rw [String.toList_ofList] at hsame
              exact hsame.trans (by decide)
            rw [List.head?_cons, (List.cons.inj hpart).1]

theorem head?_dropLeadingSlashes (text : List Char) :
    (dropLeadingSlashes text).head? ≠ some '/' := by
  intro hslash
  have hnot := List.head?_dropWhile_not (fun c => decide (c = '/')) text
  rw [dropLeadingSlashes] at hslash
  rw [hslash] at hnot
  simp at hnot

theorem dropLeadingSlashes_of_relative {text : List Char} (h : text.head? ≠ some '/') :
    dropLeadingSlashes text = text := by
  cases text with
  | nil => rfl
  | cons c rest => simpa [dropLeadingSlashes] using h

theorem dropLeadingSlashes_append (front : List Char) {text : List Char}
    (h : text.head? ≠ some '/') :
    dropLeadingSlashes (front ++ text) = dropLeadingSlashes front ++ text := by
  have hkept := dropLeadingSlashes_of_relative h
  rw [dropLeadingSlashes] at hkept
  rw [dropLeadingSlashes, dropLeadingSlashes, List.dropWhile_append]
  split
  · next hempty => rw [List.isEmpty_iff.mp hempty, List.nil_append, hkept]
  · rfl

/-- Behind a prefix of slashes alone a name is as it is, and behind any other one it starts with
a character of the prefix. -/
theorem IsExpanded.blobName_cases (h : placement.IsExpanded)
    (hname : name.toList.head? ≠ some '/') :
    placement.blobName name = name ∨
      ∃ c rest, (placement.blobName name).toList = c :: rest ∧ c ≠ '/' ∧ c ≠ '.' := by
  have htext : (placement.blobName name).toList =
      dropLeadingSlashes placement.namePrefix.toList ++ name.toList := by
    rw [blobName, String.toList_ofList, dropLeadingSlashes_of_relative hname,
      dropLeadingSlashes_append _ hname]
  cases hfront : dropLeadingSlashes placement.namePrefix.toList with
  | nil =>
      left
      apply String.toList_injective
      rw [htext, hfront, List.nil_append]
  | cons c rest =>
      right
      refine ⟨c, rest ++ name.toList, by rw [htext, hfront, List.cons_append], ?_, ?_⟩
      · rintro rfl
        exact head?_dropLeadingSlashes _ (by rw [hfront]; rfl)
      · rintro rfl
        apply h.no_full_stop
        apply (List.dropWhile_suffix (fun c => decide (c = '/'))).subset
        rw [dropLeadingSlashes] at hfront
        rw [hfront]
        exact List.mem_cons_self

theorem IsExpanded.isBlobName (h : placement.IsExpanded) (hname : IsBlobName name) :
    IsBlobName (placement.blobName name) := by
  rcases h.blobName_cases hname.relative with hsame | ⟨c, rest, htext, hslash, hstop⟩
  · rw [hsame]
    exact hname
  · refine ⟨?_, ?_, ?_, ?_⟩
    · intro hempty
      rw [hempty] at htext
      exact absurd htext (by simp)
    · rw [htext]
      simpa using hslash
    · intro hhere
      have hhead := head?_of_first_segment hhere
      rw [htext] at hhead
      exact hstop (by simpa using hhead)
    · intro hup
      have hmove : ".." ∈ FilePath.moves ⟨placement.blobName name⟩ :=
        List.mem_filter.mpr ⟨hup, rfl⟩
      rw [moves_blobName h.ends_with_slash name] at hmove
      rcases List.mem_append.mp hmove with hprefix | hbehind
      · have hsegment := (List.mem_filter.mp hprefix).1
        exact h.no_full_stop (FilePath.mem_text_of_mem_segments hsegment (by decide))
      · exact hname.never_up (List.mem_filter.mp hbehind).1

end Placement

theorem Mapper.isExpanded {σ : Type} {mapper : Mapper} {template : String}
    {resolver : Resolver σ} {state : σ} {placement : Placement}
    (h : (mapper.expandPlacement template resolver state).1.1 = .ok placement) :
    placement.IsExpanded := by
  unfold expandPlacement at h
  split at h
  · next name final later hname =>
      obtain rfl := Except.ok.inj h
      have hexpanded := congrArg Prod.fst (congrArg Prod.fst hname)
      rw [expand_eq] at hexpanded
      simp only [Expansion.expand, Expansion.expandScanned] at hexpanded
      split at hexpanded
      · next text _ _ =>
          obtain rfl := Except.ok.inj hexpanded
          exact Placement.isExpanded_ofName text
      · exact absurd hexpanded (by simp)
  · exact absurd h (by simp)

/-! ## The last name of the path of a file -/

namespace FilePath

theorem named_eq_steps (path : FilePath) : path.named = path.steps.filterMap componentOf? := by
  rw [named, steps, List.filterMap_filter]
  refine List.filterMap_congr fun segment _ => ?_
  by_cases hempty : segment = ""
  · rw [hempty]
    rfl
  · simp [hempty]

theorem fileName?_eq {path : FilePath} {front : List String} {name : String}
    (h : path.steps = front ++ [name]) (hstep : IsNameStep name) :
    path.fileName? = some name := by
  have hmem : name ∈ path.steps := by
    rw [h]
    exact List.mem_append_right _ (List.mem_singleton_self name)
  have hsilent : isSilent name = false := by
    simp [isSilent, (segment_of_mem_steps hmem).1, hstep.1]
  have hname : componentOf? name = some (.name name) := by
    rw [componentOf?, hsilent, if_neg Bool.false_ne_true, if_neg hstep.2]
  have hnamed : path.named = front.filterMap componentOf? ++ [.name name] := by
    rw [named_eq_steps, h, List.filterMap_append, List.filterMap_cons_some hname]
    rfl
  have hlast : path.components.getLast? = some (.name name) := by
    rw [components_eq, hnamed]
    split
    · rw [← List.cons_append, List.getLast?_concat]
    · split
      · rw [← List.cons_append, List.getLast?_concat]
      · rw [List.getLast?_concat]
  rw [fileName?, hlast]

end FilePath

/-! ## Names of collected files -/

namespace CollectedFile

variable {tree : FileTree} {root : FilePath} {inputs : List FilePath}
  {files : List CollectedFile}

/-- A name that is joined from the names on the way to a file. -/
def IsWay (name : String) : Prop :=
  ∃ names : List String, names ≠ [] ∧
    (∀ part ∈ names, part ≠ "" ∧ IsNameStep part ∧ '/' ∉ part.toList) ∧
    name = FilePath.joinNames names

theorem IsWay.isBlobName {name : String} (h : IsWay name) : IsBlobName name := by
  obtain ⟨names, hne, hnames, rfl⟩ := h
  exact isBlobName_joinNames hne hnames

theorem IsWay.steps_end {name : String} (h : IsWay name) :
    ∃ before last, FilePath.steps ⟨name⟩ = before ++ [last] ∧ IsNameStep last := by
  obtain ⟨names, hne, hnames, rfl⟩ := h
  refine ⟨names.dropLast, names.getLast hne, ?_, (hnames _ (List.getLast_mem hne)).2.1⟩
  rw [FilePath.steps_joinNames hne fun part hpart => ⟨(hnames part hpart).1, (hnames part hpart).2.2⟩,
    List.dropLast_concat_getLast]

/-- A path that leads to a file ends in its name. -/
theorem last_step_of_lookUp {path : FilePath} {place : Location} {content : Bytes}
    (hfound : tree.lookUp true path = .ok (place, .file content)) :
    ∃ front name, path.steps = front ++ [name] ∧ IsNameStep name := by
  obtain ⟨spot, slash, hr, rfl, hentry, _⟩ := lookUp_eq_ok_iff.mp hfound
  have hother : tree.entryAt spot.place ≠ some .directory := by simp [hentry]
  obtain ⟨_, hlead⟩ := resolve_eq_ok_iff.mp hr
  exact hlead.last_step hother

theorem isWay_of_ofInput (hformed : tree.IsWellFormed) {path : FilePath} {place : Location}
    {entry : Entry} (hfound : tree.lookUp true path = .ok (place, entry))
    (h : ofInput tree path place entry = .ok files) : ∀ file ∈ files, IsWay file.name := by
  intro file hfile
  cases entry with
  | link target => exact absurd rfl (lookUp_true_not_link hfound target)
  | file content =>
      obtain rfl := Except.ok.inj h
      obtain rfl := List.mem_singleton.mp hfile
      obtain ⟨front, name, hsteps, hstep⟩ := last_step_of_lookUp hfound
      have hmem : name ∈ path.steps := by
        rw [hsteps]
        exact List.mem_append_right _ (List.mem_singleton_self name)
      have hclean := segment_of_mem_steps hmem
      refine ⟨[name], List.cons_ne_nil name [], fun other hother => ?_, ?_⟩
      · rw [List.mem_singleton.mp hother]
        exact ⟨hclean.1, hstep, hclean.2⟩
      · rw [FilePath.fileName?_eq hsteps hstep]
        simp [FilePath.joinNames]
  | directory =>
      obtain ⟨names, hnames, rfl⟩ := mem_ofInput_directory h file hfile
      obtain ⟨hne, content, hcontent⟩ := mem_filesBelow.mp hnames
      refine ⟨names, hne, fun name hname => ?_, rfl⟩
      have hgood := hformed.proper _ _ hcontent name (List.mem_append_right _ hname)
      exact ⟨hgood.not_empty, hgood.is_step, hgood.no_slash⟩

theorem isWay_of_collected (hformed : tree.IsWellFormed)
    (h : collect tree root inputs = .ok files) : ∀ file ∈ files, IsWay file.name := by
  induction inputs generalizing files with
  | nil =>
      obtain rfl := Except.ok.inj h
      simp
  | cons input rest ih =>
      obtain ⟨place, entry, first, others, hfound, hfirst, hothers, rfl⟩ := collect_cons_ok h
      intro file hfile
      rcases List.mem_append.mp hfile with hmem | hmem
      · exact isWay_of_ofInput hformed hfound hfirst file hmem
      · exact ih hothers file hmem

theorem isBlobName_of_collected (hformed : tree.IsWellFormed)
    (h : collect tree root inputs = .ok files) : ∀ file ∈ files, IsBlobName file.name :=
  fun file hfile => (isWay_of_collected hformed h file hfile).isBlobName

end CollectedFile

/-! ## Calls of a migration -/

/-- A call that writes has a target that the store accepts, and has not failed for the names of
it. Only a container that is a file itself has a blob without a name, and no copy of that one
is spoken of. -/
def LoggedCall.ReachesTarget (store : BlobStore) (logged : LoggedCall) : Prop :=
  match logged.call with
  | .upload container blob =>
      store.Reaches container blob ∧
        logged.failure? ≠ some (.uploadFailed container blob namesRefused)
  | .copy container blob _ fromBlob =>
      fromBlob ≠ "" → store.Reaches container blob ∧
        logged.failure? ≠ some (.uploadFailed container blob namesRefused)
  | .list _ => True

def Session.ReachesTargets (store : BlobStore) (session later : Session) : Prop :=
  later.tree.IsWellFormed ∧
    ∀ logged ∈ later.log, logged ∈ session.log ∨ logged.ReachesTarget store

namespace Session

variable {store : BlobStore} {first session later : Session}

theorem ReachesTargets.refl (h : session.tree.IsWellFormed) :
    session.ReachesTargets store session :=
  ⟨h, fun _ hlogged => .inl hlogged⟩

theorem ReachesTargets.trans (h : first.ReachesTargets store session)
    (g : session.ReachesTargets store later) : first.ReachesTargets store later := by
  refine ⟨g.1, fun logged hlogged => ?_⟩
  rcases g.2 logged hlogged with hbefore | hreaches
  · exact h.2 logged hbefore
  · exact .inr hreaches

theorem ReachesTargets.returned (h : first.ReachesTargets store session) {α : Type}
    {call : StoreCall} {result : Except MigrationError α} {tree : FileTree}
    (htree : tree.IsWellFormed)
    (hcall : ∀ failure?, (∀ error, failure? = some error → result = .error error) →
      LoggedCall.ReachesTarget store ⟨call, failure?, tree⟩) :
    first.ReachesTargets store (session.returned call result tree).2 := by
  refine ⟨htree, fun logged hlogged => ?_⟩
  rcases List.mem_append.mp hlogged with hbefore | hnew
  · exact h.2 logged hbefore
  · right
    rw [List.mem_singleton.mp hnew]
    apply hcall
    intro error herror
    cases result with
    | ok value => exact absurd herror (by simp)
    | error cause => rw [Option.some.inj herror]

end Session

namespace Migration

variable {migration : Migration} {mode : Mode} {first session : Session}

theorem upload_reaches (h : first.ReachesTargets migration.store session)
    {container blob : String} (hnames : IsContainerName container ∧ IsBlobName blob)
    (content : Content) :
    first.ReachesTargets migration.store
      (session.upload migration.store migration.cancelAfter? container blob content).2 := by
  refine h.returned (upload_lasts isWellFormed_lasts h.1 _ _ _ _ _) fun failure? hfailure => ?_
  refine ⟨reaches_of_names hnames, fun hrefused => ?_⟩
  exact upload_not_refused hnames _ _ _ (hfailure _ hrefused)

theorem copy_reaches (h : first.ReachesTargets migration.store session)
    {container blob fromContainer fromBlob : String}
    (hnames : fromBlob ≠ "" → IsContainerName container ∧ IsBlobName blob) :
    first.ReachesTargets migration.store
      (session.copy migration.store migration.cancelAfter? container blob fromContainer
        fromBlob).2 := by
  refine h.returned (copy_lasts isWellFormed_lasts h.1 _ _ _ _ _ _) fun failure? hfailure => ?_
  intro hne
  refine ⟨reaches_of_names (hnames hne), fun hrefused => ?_⟩
  exact copy_not_refused (hnames hne) _ _ _ _ (hfailure _ hrefused)

theorem migrateContainer_reaches (migration : Migration) (mode : Mode) (container : Container)
    (h : session.tree.IsWellFormed) :
    session.ReachesTargets migration.store
      (migration.migrateContainer mode container session).2 := by
  have hstart : session.ReachesTargets migration.store session := .refl h
  have hlisted : ∀ mapper, session.ReachesTargets migration.store
      (Session.list { session with mapper } migration.store container.name).2 := by
    intro mapper
    exact hstart.returned h fun failure? _ => trivial
  obtain ⟨mapper, hafter | hafter | ⟨placement, blobs, _, hplacement, hlist, hafter⟩⟩ :=
    migration.migrateContainer_session mode container session
  · rw [hafter]
    exact hstart
  · rw [hafter]
    exact hlisted mapper
  · rw [hafter]
    have hanswer : (session.mapper.expandPlacement migration.templates.container.text
        container.resolver ()).1.1 = .ok placement := hplacement
    have hexpanded := Mapper.isExpanded hanswer
    apply copyBlobs_invariant (session.ReachesTargets migration.store) _ (hlisted mapper)
    intro blob hblob middle hmiddle
    apply copy_reaches hmiddle
    intro hne
    have hname := isBlobName_of_listed h hlist hblob hne
    exact ⟨hexpanded.container, hexpanded.isBlobName hname⟩

theorem migrateAsset_reaches (migration : Migration) (mode : Mode) (manifest : Manifest)
    (entry : AssetEntry) (h : session.tree.IsWellFormed) :
    session.ReachesTargets migration.store
      (migration.migrateAsset mode manifest entry session).2 := by
  have hstart : session.ReachesTargets migration.store session := .refl h
  obtain ⟨mapper, hafter | ⟨placement, files, _, hplacement, hfiles, hafter⟩⟩ :=
    migration.migrateAsset_session mode manifest entry session
  · rw [hafter]
    exact hstart
  · rw [hafter]
    have hexpanded : placement.IsExpanded := Mapper.isExpanded hplacement
    apply uploadFiles_invariant (session.ReachesTargets migration.store)
    · intro file hfile middle place found hmiddle _
      apply upload_reaches hmiddle
      have hname := CollectedFile.isBlobName_of_collected h hfiles file hfile
      exact ⟨hexpanded.container, hexpanded.isBlobName hname⟩
    · exact hstart

theorem migrateUnit_reaches (migration : Migration) (mode : Mode) (manifest : Manifest)
    (unit : MigrationUnit) (h : session.tree.IsWellFormed) :
    session.ReachesTargets migration.store
      (migration.migrateUnit mode manifest unit session).2 := by
  cases unit with
  | container container => exact migration.migrateContainer_reaches mode container h
  | asset entry => exact migration.migrateAsset_reaches mode manifest entry h
  | key key =>
      obtain ⟨mapper, hafter⟩ := migration.mapKey_session key session
      simp only [migrateUnit, hafter]
      exact .refl h

theorem execute_reaches (migration : Migration) (mode : Mode) (manifest : Manifest)
    (h : session.tree.IsWellFormed) :
    session.ReachesTargets migration.store (migration.execute mode manifest session).2 := by
  rw [session_execute]
  have hall : session.tree.IsWellFormed → session.ReachesTargets migration.store
      (migration.attemptUnits mode manifest manifest.units session).2 := by
    apply attempt_relates fun session later =>
      session.tree.IsWellFormed → session.ReachesTargets migration.store later
    · exact fun session hformed => .refl hformed
    · intro first second third hfirst hsecond hformed
      have hbetween := hfirst hformed
      exact hbetween.trans (hsecond hbetween.1)
    · intro session hformed
      unfold Session.looked
      split
      · exact .refl hformed
      · exact .refl hformed
    · exact fun unit session hformed => migration.migrateUnit_reaches mode manifest unit hformed
  exact hall h

/-- Whatever a template makes of whatever values, the files that are collected and the blobs with
a name that are listed get names which the store accepts and which lead below its container.
So no upload of a migration, and no copy of a blob with a name, fails for the names of its
target. -/
theorem targets_are_accepted (migration : Migration) {tree : FileTree}
    (hformed : tree.IsWellFormed) :
    (∀ (σ : Type) (mapper : Mapper) (template : String) (resolver : Resolver σ) (state : σ)
        (placement : Placement),
      (mapper.expandPlacement template resolver state).1.1 = .ok placement →
      (∀ root inputs files, CollectedFile.collect tree root inputs = .ok files →
        ∀ file ∈ files,
          migration.store.Reaches placement.container (placement.blobName file.name)) ∧
      (∀ (source : BlobStore) container blobs, source.list container tree = .ok blobs →
        ∀ blob ∈ blobs, blob ≠ "" →
          migration.store.Reaches placement.container (placement.blobName blob))) ∧
    (∀ mode manifest (session : Session), session.tree = tree →
      ∀ logged ∈ (migration.execute mode manifest session).2.log,
        logged ∈ session.log ∨ logged.ReachesTarget migration.store) := by
  constructor
  · intro σ mapper template resolver state placement hplacement
    have hexpanded := Mapper.isExpanded hplacement
    constructor
    · intro root inputs files hfiles file hfile
      have hname := CollectedFile.isBlobName_of_collected hformed hfiles file hfile
      exact reaches_of_names ⟨hexpanded.container, hexpanded.isBlobName hname⟩
    · intro source container blobs hlist blob hblob hne
      have hname := isBlobName_of_listed hformed hlist hblob hne
      exact reaches_of_names ⟨hexpanded.container, hexpanded.isBlobName hname⟩
  · intro mode manifest session htree
    exact (migration.execute_reaches mode manifest (htree ▸ hformed)).2

namespace DottedNames

def tree : FileTree :=
  (FileTree.empty.put ["in"] .directory).put ["in", "b..c"] (.file [1])

def archiving : Migration :=
  ⟨⟨⟨"$\x7bAssetName\x7d/", .asset, by decide +kernel⟩, ⟨"copies", .container, by decide +kernel⟩,
    none, none⟩, ⟨⟨"store"⟩, false⟩, ⟨"."⟩, none⟩

def manifest : Manifest where
  assets := [{ asset := { name := "..//./../x y" }, files := [⟨"in/./b..c"⟩] }]

end DottedNames

/-- Full stops of the asset are gone from container and prefix, those of the file are kept. -/
theorem targets_are_accepted_dotted :
    DottedNames.tree.IsWellFormed ∧
      ∃ logged ∈ (DottedNames.archiving.execute .run DottedNames.manifest
          { tree := DottedNames.tree }).2.log,
        logged.call = .upload "a" "-/-/x-y/b..c" ∧
          logged.ReachesTarget DottedNames.archiving.store := by
  have hformed : DottedNames.tree.IsWellFormed := by decide +kernel
  have hcalls : (DottedNames.archiving.execute .run DottedNames.manifest
      { tree := DottedNames.tree }).2.log.map LoggedCall.call =
        [.upload "a" "-/-/x-y/b..c"] := by
    decide +kernel
  obtain ⟨logged, hlogged, hcall⟩ := List.mem_map.mp (hcalls ▸ List.mem_singleton_self _)
  have hreaches := (targets_are_accepted DottedNames.archiving hformed).2 .run
    DottedNames.manifest { tree := DottedNames.tree } rfl logged hlogged
  exact ⟨hformed, logged, hlogged, hcall, hreaches.resolve_left (by simp)⟩

end Migration

end MediaMigration
