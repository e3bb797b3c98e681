import Mathlib.Data.List.Basic
import MediaMigration.Proofs.BlobStore.Listing

/-!
# The names that a store accepts

The check of names looks at the components of a text, where repeated slashes and inner `.`
segments are gone, while the path of a blob is joined from the texts themselves. Here the
accepted names are said by their segments. A path made of them has the components of the root,
then the container, then what the blob name says; every other name is refused before the tree
is touched.
-/

namespace MediaMigration

namespace FilePath

/-! ## Components of joined paths -/

def named (path : FilePath) : List PathComponent :=
  path.segments.filterMap componentOf?

theorem components_eq (path : FilePath) :
    path.components =
      if path.isAbsolute then .root :: path.named
      else if path.segments.head? = some "." then .here :: path.named
      else path.named :=
  rfl

/-- The segments of two joined paths. A slash at the end of the first is the one between the
two. -/
theorem segments_join {base next : FilePath} (hnext : next.isAbsolute = false)
    (hbase : base.text ≠ "") :
    ∃ front, front ≠ [] ∧ (base.join next).segments = front ++ next.segments ∧
      (base.segments = front ∨ base.segments = front ++ [""]) := by
  unfold join
  rw [hnext, if_neg Bool.false_ne_true, if_neg hbase]
  split
  · next hslash =>
      obtain ⟨text, htext⟩ := eq_append_slash hslash
      have hsplit := segments_append_slash text ""
      rw [String.append_empty, ← htext] at hsplit
      refine ⟨segments ⟨text⟩, segments_ne_nil ⟨text⟩, ?_, .inr hsplit⟩
      rw [htext, segments_append_slash]
  · exact ⟨base.segments, segments_ne_nil base, segments_append_slash _ _, .inl rfl⟩

theorem components_join {base next : FilePath} (hnext : next.isAbsolute = false)
    (hhere : next.segments.head? ≠ some ".") :
    (base.join next).components = base.components ++ next.named := by
  by_cases hbase : base.text = ""
  · have hjoin : base.join next = next := by
      rw [join, hnext, if_neg Bool.false_ne_true, if_pos hbase]
    have hempty : base.components = [] := by
      obtain ⟨text⟩ := base
      obtain rfl : text = "" := hbase
      rfl
    rw [hjoin, hempty, List.nil_append, components_eq, hnext, if_neg Bool.false_ne_true,
      if_neg hhere]
  · obtain ⟨front, hne, hsegments, hfront⟩ := segments_join hnext hbase
    have hhead : front.head? = base.segments.head? := by
      rcases hfront with hsame | hslash
      · rw [hsame]
      · rw [hslash, List.head?_append_of_ne_nil _ hne]
    have hnamed : front.filterMap componentOf? = base.named := by
      rcases hfront with hsame | hslash
      · rw [named, hsame]
      · have hsilent : [""].filterMap componentOf? = [] := rfl
        rw [named, hslash, List.filterMap_append, hsilent, List.append_nil]
    have hstart : (base.join next).segments.head? = base.segments.head? := by
      rw [hsegments, List.head?_append_of_ne_nil _ hne, hhead]
    have hall : (base.join next).named = base.named ++ next.named := by
      rw [named, hsegments, List.filterMap_append, hnamed, named, named]
    rw [components_eq, components_eq, isAbsolute_join hnext, hstart, hall]
    split
    · rfl
    · split
      · rfl
      · rfl

theorem named_eq {path : FilePath} (h : ".." ∉ path.segments) :
    path.named = path.moves.map .name := by
  unfold named moves
  generalize path.segments = segments at h
  induction segments with
  | nil => rfl
  | cons segment rest ih =>
      rw [List.mem_cons, not_or] at h
      have hrest := ih h.2
      cases hsilent : isSilent segment with
      | true =>
          have hnone : componentOf? segment = none := by rw [componentOf?, if_pos hsilent]
          rw [List.filterMap_cons_none hnone, hrest, List.filter_cons_of_neg (by simp [hsilent])]
      | false =>
          have hsome : componentOf? segment = some (.name segment) := by
            rw [componentOf?, hsilent, if_neg Bool.false_ne_true, if_neg (Ne.symm h.1)]
          rw [List.filterMap_cons_some hsome, hrest,
            List.filter_cons_of_pos (by simp [hsilent]), List.map_cons]

end FilePath

namespace BlobStore

open FileTree

/-! ## Accepted names -/

/-- The name of one directory. -/
structure IsContainerName (name : String) : Prop where
  not_empty : name ≠ ""
  no_slash : '/' ∉ name.toList
  not_here : name ≠ "."
  not_up : name ≠ ".."

/-- A name that leads down from where it starts. -/
structure IsBlobName (name : String) : Prop where
  not_empty : name ≠ ""
  relative : name.toList.head? ≠ some '/'
  not_here : (FilePath.segments ⟨name⟩).head? ≠ some "."
  never_up : ".." ∉ FilePath.segments ⟨name⟩

theorem isAbsolute_eq_false {name : String} (h : name.toList.head? ≠ some '/') :
    FilePath.isAbsolute ⟨name⟩ = false := by
  simpa [FilePath.isAbsolute] using h

theorem isPlainName_iff {name : String} : isPlainName name = true ↔ IsBlobName name := by
  constructor
  · intro h
    have hrelative := isAbsolute_of_isPlainName h
    have hall := h
    rw [isPlainName, Bool.and_eq_true, List.all_eq_true] at hall
    refine ⟨ne_empty_of_isPlainName h, ?_, ?_, ?_⟩
    · simpa [FilePath.isAbsolute] using hrelative
    · intro hhere
      have hmem : PathComponent.here ∈ FilePath.components ⟨name⟩ := by
        rw [FilePath.components_eq, hrelative, if_neg Bool.false_ne_true, if_pos hhere]
        exact List.mem_cons_self
      exact absurd (hall.2 _ hmem) (by simp)
    · intro hup
      have hmove : ".." ∈ FilePath.moves ⟨name⟩ := List.mem_filter.mpr ⟨hup, rfl⟩
      exact (isNameStep_of_isPlainName h _ hmove).2 rfl
  · intro h
    have hcomponents : FilePath.components ⟨name⟩ = (FilePath.moves ⟨name⟩).map .name := by
      rw [FilePath.components_eq, isAbsolute_eq_false h.relative, if_neg Bool.false_ne_true,
        if_neg h.not_here, FilePath.named_eq h.never_up]
    have hne : (name != "") = true := by simpa using h.not_empty
    rw [isPlainName, hne, Bool.true_and, hcomponents, List.all_eq_true]
    intro component hmem
    obtain ⟨move, _, rfl⟩ := List.mem_map.mp hmem
    rfl

theorem isContainerName_iff {name : String} :
    IsContainerName name ↔ isPlainName name = true ∧ '/' ∉ name.toList := by
  rw [isPlainName_iff]
  constructor
  · intro h
    have hsegments := FilePath.segments_of_no_slash h.no_slash
    refine ⟨⟨h.not_empty, ?_, ?_, ?_⟩, h.no_slash⟩
    · intro hhead
      exact h.no_slash (List.mem_of_mem_head? hhead)
    · rw [hsegments]
      simpa using h.not_here
    · rw [hsegments, List.mem_singleton]
      exact Ne.symm h.not_up
  · rintro ⟨hblob, hsingle⟩
    have hsegments := FilePath.segments_of_no_slash hsingle
    refine ⟨hblob.not_empty, hsingle, ?_, ?_⟩
    · rintro rfl
      exact hblob.not_here (by rw [hsegments]; rfl)
    · rintro rfl
      exact hblob.never_up (by rw [hsegments]; exact List.mem_singleton_self _)

theorem IsBlobName.moves_ne_nil {name : String} (h : IsBlobName name) :
    FilePath.moves ⟨name⟩ ≠ [] := by
  -- the first segment is neither empty, nor `.`
  obtain ⟨first, rest, hsegments, hne⟩ :=
    FilePath.segments_of_not_isAbsolute (isAbsolute_eq_false h.relative) h.not_empty
  have hhere : first ≠ "." := by
    have hhead := h.not_here
    rw [hsegments] at hhead
    simpa using hhead
  have hspeaks : FilePath.isSilent first = false := by simp [FilePath.isSilent, hne, hhere]
  rw [FilePath.moves, hsegments, List.filter_cons_of_pos (by simp [hspeaks])]
  exact List.cons_ne_nil _ _

theorem IsBlobName.steps_ne_nil {name : String} (h : IsBlobName name) :
    FilePath.steps ⟨name⟩ ≠ [] := by
  intro hnone
  apply h.moves_ne_nil
  rw [FilePath.moves_eq_filter_steps, hnone, List.filter_nil]

theorem IsBlobName.steps_down {name : String} (h : IsBlobName name) :
    ".." ∉ FilePath.steps ⟨name⟩ :=
  fun hup => h.never_up (List.mem_of_mem_filter hup)

theorem isBlobName_joinNames {names : List String} (hne : names ≠ [])
    (h : ∀ name ∈ names, name ≠ "" ∧ IsNameStep name ∧ '/' ∉ name.toList) :
    IsBlobName (FilePath.joinNames names) := by
  have hproper : ∀ name ∈ names, name ≠ "" ∧ '/' ∉ name.toList :=
    fun name hname => ⟨(h name hname).1, (h name hname).2.2⟩
  have hsegments := FilePath.segments_joinNames hne fun name hname => (hproper name hname).2
  have hrelative := FilePath.isAbsolute_joinNames hne hproper
  refine ⟨?_, ?_, ?_, ?_⟩
  · intro hempty
    rw [hempty] at hsegments
    have hmem : "" ∈ names := by
      rw [← hsegments]
      decide
    exact (h "" hmem).1 rfl
  · simpa [FilePath.isAbsolute] using hrelative
  · rw [hsegments]
    intro hhead
    exact (h "." (List.mem_of_mem_head? hhead)).2.1.1 rfl
  · rw [hsegments]
    intro hup
    exact (h ".." hup).2.1.2 rfl

/-- Every listed name can be used again, except the empty one of a container that is a file. -/
theorem isBlobName_of_listed {store : BlobStore} {container blob : String} {tree : FileTree}
    (hformed : tree.IsWellFormed) {blobs : List String}
    (h : store.list container tree = .ok blobs) (hmem : blob ∈ blobs) (hne : blob ≠ "") :
    IsBlobName blob := by
  obtain ⟨dir, names, _, hnames, rfl⟩ := mem_list h hmem hne
  obtain ⟨hbelow, content, hfile⟩ := mem_filesBelow.mp hnames
  refine isBlobName_joinNames hbelow fun name hname => ?_
  have hgood := hformed.proper _ _ hfile name (List.mem_append_right _ hname)
  exact ⟨hgood.not_empty, hgood.is_step, hgood.no_slash⟩

variable {store : BlobStore} {container blob : String} {path : FilePath}

theorem blobPath_eq_ok_iff :
    store.blobPath container blob = .ok path ↔
      (IsContainerName container ∧ IsBlobName blob) ∧
        path = (store.root.join ⟨container⟩).join ⟨blob⟩ := by
  constructor
  · intro h
    have hpath := blobPath_eq_ok h
    exact ⟨⟨isContainerName_iff.mpr ⟨hpath.container_plain, hpath.container_single⟩,
      isPlainName_iff.mp hpath.blob_plain⟩, hpath.path_eq⟩
  · rintro ⟨⟨hcontainer, hblob⟩, rfl⟩
    obtain ⟨hplain, hsingle⟩ := isContainerName_iff.mp hcontainer
    have hblobPlain := isPlainName_iff.mpr hblob
    simp [blobPath, hplain, hsingle, hblobPlain]

theorem blobPath_cause {error : MigrationError}
    (h : store.blobPath container blob = .error error) :
    error = .uploadFailed container blob namesRefused := by
  unfold blobPath at h
  split at h
  · exact (Except.error.inj h).symm
  · exact absurd h (by simp)

theorem blobPath_error (h : ¬ (IsContainerName container ∧ IsBlobName blob)) :
    store.blobPath container blob = .error (.uploadFailed container blob namesRefused) := by
  cases hpath : store.blobPath container blob with
  | ok path => exact absurd (blobPath_eq_ok_iff.mp hpath).1 h
  | error error => rw [blobPath_cause hpath]

/-! ## Paths of accepted names -/

theorem IsContainerName.components_join (h : IsContainerName container) (root : FilePath) :
    (root.join ⟨container⟩).components = root.components ++ [.name container] := by
  have hblob := isPlainName_iff.mp (isContainerName_iff.mp h).1
  have hsegments := FilePath.segments_of_no_slash h.no_slash
  have hspeaks : FilePath.isSilent container = false := by
    simp [FilePath.isSilent, h.not_empty, h.not_here]
  have hmoves : FilePath.moves ⟨container⟩ = [container] := by
    rw [FilePath.moves, hsegments, List.filter_cons_of_pos (by simp [hspeaks]), List.filter_nil]
  rw [FilePath.components_join (isAbsolute_eq_false hblob.relative) hblob.not_here,
    FilePath.named_eq hblob.never_up, hmoves, List.map_singleton]

theorem IsBlobName.components_join (h : IsBlobName blob) (base : FilePath) :
    (base.join ⟨blob⟩).components =
      base.components ++ (FilePath.moves ⟨blob⟩).map .name := by
  rw [FilePath.components_join (isAbsolute_eq_false h.relative) h.not_here,
    FilePath.named_eq h.never_up]

/-- A path lies strictly below another one, and goes down from there by names only. -/
def IsBelow (path base : FilePath) : Prop :=
  ∃ names, names ≠ [] ∧ path.components = base.components ++ names.map .name

theorem isBelow_of_blobPath (h : store.blobPath container blob = .ok path) :
    IsBelow path (store.root.join ⟨container⟩) := by
  obtain ⟨⟨_, hblob⟩, rfl⟩ := blobPath_eq_ok_iff.mp h
  exact ⟨_, hblob.moves_ne_nil, hblob.components_join _⟩

/-- The names are accepted, and lead below the container. -/
def Reaches (store : BlobStore) (container blob : String) : Prop :=
  ∃ path, store.blobPath container blob = .ok path ∧ IsBelow path (store.root.join ⟨container⟩)

theorem reaches_of_names (h : IsContainerName container ∧ IsBlobName blob) :
    store.Reaches container blob := by
  have hpath : store.blobPath container blob =
      .ok ((store.root.join ⟨container⟩).join ⟨blob⟩) :=
    blobPath_eq_ok_iff.mpr ⟨h, rfl⟩
  exact ⟨_, hpath, isBelow_of_blobPath hpath⟩

/-! ## Refused names -/

theorem upload_refused (h : ¬ (IsContainerName container ∧ IsBlobName blob)) (content : Content)
    (cancellation : Cancellation) (tree : FileTree) :
    store.upload container blob content cancellation tree =
      ⟨.error (if cancellation.foundAt 0 0 then .cancelled
        else .uploadFailed container blob namesRefused), [], tree⟩ := by
  rw [upload_def]
  rw [blobPath_error h]
  split
  · rfl
  · rfl

variable {fromContainer fromBlob : String}

theorem copy_refused
    (h : ¬ ((IsContainerName container ∧ IsBlobName blob) ∧
      IsContainerName fromContainer ∧ IsBlobName fromBlob))
    (cancellation : Cancellation) (tree : FileTree) :
    ∃ error, store.copy container blob fromContainer fromBlob cancellation tree =
      (.error error, tree) := by
  rw [copy_def]
  by_cases hsource : IsContainerName fromContainer ∧ IsBlobName fromBlob
  · have htarget : ¬ (IsContainerName container ∧ IsBlobName blob) :=
      fun hgood => h ⟨hgood, hsource⟩
    simp only [blobPath_eq_ok_iff.mpr ⟨hsource, rfl⟩, upload_refused htarget]
    split
    · exact ⟨_, rfl⟩
    · exact ⟨_, rfl⟩
  · simp only [blobPath_error hsource]
    exact ⟨_, rfl⟩

/-! ## Accepted names are not refused later -/

theorem message_ne_namesRefused {error : IoError}
    (h : error ∈ lookUpCauses) : error.message ≠ namesRefused := by
  have hall : ∀ cause ∈ lookUpCauses, cause.message ≠ namesRefused := by
    decide +kernel
  exact hall error h

theorem unavailable_ne_namesRefused (words : String) :
    "copy source unavailable: " ++ words ≠ namesRefused := by
  have hthird : "copy source unavailable: ".toList[2]? = some 'p' := by decide +kernel
  have hother : namesRefused.toList[2]? = some 'n' := by decide +kernel
  have hlength : 2 < "copy source unavailable: ".toList.length := by decide +kernel
  intro h
  have hsame : ("copy source unavailable: ".toList ++ words.toList)[2]? = some 'n' := by
    rw [← String.toList_append, h]
    exact hother
  rw [List.getElem?_append_left hlength, hthird] at hsame
  exact absurd hsame (by simp)

theorem createNew_cause {tree : FileTree} {error : IoError}
    (he : tree.createNew path = .error error) : error = .alreadyExists ∨ error ∈ lookUpCauses := by
  unfold createNew at he
  split at he
  · next hr => exact .inr (resolve_cause (Except.error.inj he ▸ hr))
  · exact .inl (Except.error.inj he).symm
  · split at he
    · exact .inl (Except.error.inj he).symm
    · exact absurd he (by simp)

theorem createOrTruncate_cause {tree : FileTree} {error : IoError}
    (he : tree.createOrTruncate path = .error error) : error ∈ lookUpCauses := by
  unfold createOrTruncate at he
  split at he
  · next hr => exact resolve_cause (Except.error.inj he ▸ hr)
  · simp [← Except.error.inj he, lookUpCauses]
  · split at he
    · simp [← Except.error.inj he, lookUpCauses]
    · exact absurd he (by simp)

theorem openTarget_not_refused (store : BlobStore) (container blob : String) (path : FilePath)
    (tree : FileTree) :
    (store.openTarget container blob path tree).1 ≠
      .error (.uploadFailed container blob namesRefused) := by
  rw [openTarget_def]
  split
  · simp
  · split
    · simp
    · simp
    · next made _ error hnew hopen =>
        have hcause : error ∈ lookUpCauses := by
          split at hopen
          · exact createOrTruncate_cause hopen
          · exact (createNew_cause hopen).resolve_left fun h => hnew h
        simpa using message_ne_namesRefused hcause

theorem transfer_error {cancellation : Cancellation} {failure? : Option IoError}
    {reads : List Bytes} {look written : Nat} {error : MigrationError}
    (h : (transfer cancellation failure? reads look written).result = .error error) :
    error = .cancelled ∨ ∃ cause, error = .io cause := by
  induction reads generalizing look written with
  | nil =>
      unfold transfer at h
      split at h
      · exact .inl (Except.error.inj h).symm
      · split at h
        · exact .inr ⟨_, (Except.error.inj h).symm⟩
        · exact absurd h (by simp)
  | cons chunk rest ih =>
      unfold transfer at h
      split at h
      · exact .inl (Except.error.inj h).symm
      · exact ih h

theorem fill_causes {path : FilePath} {target : Location} {content : Content}
    {cancellation : Cancellation} {tree : FileTree} {error : MigrationError}
    (h : (fill path target content cancellation tree).result = .error error) :
    error = .cancelled ∨ ∃ cause, error = .io cause := by
  rw [result_fill] at h
  exact transfer_error h

/-- An upload is cancelled, fails to read, is refused for its names, or does not open its target. -/
theorem upload_causes {content : Content} {cancellation : Cancellation} {tree : FileTree}
    {error : MigrationError}
    (h : (store.upload container blob content cancellation tree).result = .error error) :
    error = .cancelled ∨ (∃ cause, error = .io cause) ∨
      store.blobPath container blob = .error error ∨
      ∃ path, store.blobPath container blob = .ok path ∧
        (store.openTarget container blob path tree).1 = .error error := by
  rw [upload_def] at h
  split at h
  · exact .inl (Except.error.inj h).symm
  · cases hpath : store.blobPath container blob with
    | error refusal =>
        simp only [hpath] at h
        exact .inr (.inr (.inl (congrArg Except.error (Except.error.inj h))))
    | ok path =>
        simp only [hpath] at h
        split at h
        · next hopen =>
            rw [← Except.error.inj h]
            exact .inr (.inr (.inr ⟨path, rfl, congrArg Prod.fst hopen⟩))
        · rcases fill_causes h with hcancelled | hcause
          · exact .inl hcancelled
          · exact .inr (.inl hcause)

theorem upload_not_refused (h : IsContainerName container ∧ IsBlobName blob) (content : Content)
    (cancellation : Cancellation) (tree : FileTree) :
    (store.upload container blob content cancellation tree).result ≠
      .error (.uploadFailed container blob namesRefused) := by
  intro hrefused
  rcases upload_causes hrefused with hcause | ⟨_, hcause⟩ | hnames | ⟨path, _, hopen⟩
  · exact absurd hcause (by simp)
  · exact absurd hcause (by simp)
  · rw [blobPath_eq_ok_iff.mpr ⟨h, rfl⟩] at hnames
    exact absurd hnames (by simp)
  · exact openTarget_not_refused store container blob path tree hopen

theorem copy_not_refused (h : IsContainerName container ∧ IsBlobName blob)
    (fromContainer fromBlob : String) (cancellation : Cancellation) (tree : FileTree) :
    (store.copy container blob fromContainer fromBlob cancellation tree).1 ≠
      .error (.uploadFailed container blob namesRefused) := by
  rw [copy_def]
  by_cases hsource : IsContainerName fromContainer ∧ IsBlobName fromBlob
  · simp only [blobPath_eq_ok_iff.mpr ⟨hsource, rfl⟩]
    split
    · next failure _ =>
        intro hrefused
        have hreason := (MigrationError.uploadFailed.inj (Except.error.inj hrefused)).2.2
        exact unavailable_ne_namesRefused failure.message hreason
    · exact upload_not_refused h _ cancellation tree
  · simp only [blobPath_error hsource]
    intro hrefused
    obtain ⟨rfl, rfl, _⟩ := MigrationError.uploadFailed.inj (Except.error.inj hrefused)
    exact hsource h

/-! ## Confinement -/

/-- A name is accepted exactly if it leads down. The path of accepted names has the components
of the root, the container, and one name or more of the blob, so it lies strictly below the
container. An upload or a copy with other names fails and leaves the tree as it was. -/
theorem writes_are_confined (store : BlobStore) (container blob : String) :
    (∀ path, store.blobPath container blob = .ok path ↔
      (IsContainerName container ∧ IsBlobName blob) ∧
        path = (store.root.join ⟨container⟩).join ⟨blob⟩) ∧
    (∀ path, store.blobPath container blob = .ok path →
      FilePath.moves ⟨blob⟩ ≠ [] ∧
      path.components = store.root.components ++ .name container ::
        (FilePath.moves ⟨blob⟩).map .name ∧
      IsBelow path (store.root.join ⟨container⟩)) ∧
    (¬ (IsContainerName container ∧ IsBlobName blob) → ∀ content cancellation tree,
      store.upload container blob content cancellation tree =
        ⟨.error (if cancellation.foundAt 0 0 then .cancelled
          else .uploadFailed container blob namesRefused), [], tree⟩) ∧
    (∀ fromContainer fromBlob, ¬ ((IsContainerName container ∧ IsBlobName blob) ∧
        IsContainerName fromContainer ∧ IsBlobName fromBlob) → ∀ cancellation tree,
      ∃ error, store.copy container blob fromContainer fromBlob cancellation tree =
        (.error error, tree)) := by
  refine ⟨fun path => blobPath_eq_ok_iff, ?_, fun h => upload_refused h,
    fun fromContainer fromBlob h => copy_refused h⟩
  intro path hpath
  obtain ⟨⟨hcontainer, hblob⟩, rfl⟩ := blobPath_eq_ok_iff.mp hpath
  refine ⟨hblob.moves_ne_nil, ?_, isBelow_of_blobPath hpath⟩
  rw [hblob.components_join, hcontainer.components_join, List.append_assoc,
    List.singleton_append]

/-- Repeated slashes and inner dots are passed over, and a way up is refused. -/
theorem writes_are_confined_dots :
    let store : BlobStore := ⟨⟨"./store/"⟩, true⟩
    let path : FilePath := ⟨"./store/media/a//./b"⟩
    store.blobPath "media" "a//./b" = .ok path ∧
      path.components = [.here, .name "store", .name "media", .name "a", .name "b"] ∧
      ¬ IsBlobName "a/../b" ∧
      (store.upload "media" "a/../b" (.chunks [[1]] none) .never .empty).tree = .empty := by
  intro store path
  have hnames : IsContainerName "media" ∧ IsBlobName "a//./b" :=
    ⟨⟨by decide, by decide, by decide, by decide⟩, ⟨by decide, by decide, by decide, by decide⟩⟩
  have hjoin : path = (store.root.join ⟨"media"⟩).join ⟨"a//./b"⟩ := by decide +kernel
  have haccepted := ((writes_are_confined store "media" "a//./b").1 path).mpr ⟨hnames, hjoin⟩
  have hrefused : ¬ IsBlobName "a/../b" := fun h => h.never_up (by decide)
  have hup := (writes_are_confined store "media" "a/../b").2.2.1 fun h => hrefused h.2
  refine ⟨haccepted, ?_, hrefused, ?_⟩
  · rw [((writes_are_confined store "media" "a//./b").2.1 path haccepted).2.1]
    decide +kernel
  · rw [hup]

end BlobStore

end MediaMigration
