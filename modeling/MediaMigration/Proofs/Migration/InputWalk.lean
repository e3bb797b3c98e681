import MediaMigration.Proofs.FileTree.DepthFirst
import MediaMigration.Proofs.FileTree.PlainWalk
import MediaMigration.Proofs.Migration.Targets

/-!
# What the inputs of an asset give

An input that is a file gives this file, under the last component of its path. A directory gives
all files below it, each once and under the way to it, in the order in which a depth-first search
comes to them: sibling after sibling by the bytes of their names, which is the order of the ways
component by component. The inputs give their files one after the other, or none of them does: if
one cannot be looked up, and also if a directory below one can be found but has too long a path for
the search to open it.
-/

namespace MediaMigration

open FileTree BlobStore

namespace CollectedFile

variable {tree : FileTree} {root path : FilePath} {inputs : List FilePath}
  {files : List CollectedFile}

/-- The files of an input at a path: the file that is there, or all files that a search finds below
the directory that is there. -/
inductive Gives (tree : FileTree) (path : FilePath) : List CollectedFile → Prop
  | file {place : Location} {content : Bytes} {name : String}
      (found : tree.lookUp true path = .ok (place, .file content))
      (last : path.components.getLast? = some (.name name)) :
      Gives tree path [⟨path, name⟩]
  | directory {dir : Location} {ways : List Location}
      (found : tree.lookUp true path = .ok (dir, .directory))
      (walked : Searches tree path dir [[]] (.ok ways))
      (every : ∀ names, names ∈ ways ↔
        names ≠ [] ∧ ∃ content, tree.entryAt (dir ++ names) = some (.file content))
      (ordered : (ways.map fun names => names.map Text.bytesOf).Pairwise (· < ·))
      (once : (ways.map FilePath.joinNames).Nodup) :
      Gives tree path (ways.map fun names => ⟨path.below names, FilePath.joinNames names⟩)

/-! ## One input -/

def gathered (tree : FileTree) (path : FilePath) : Except IoError (List CollectedFile) :=
  match tree.lookUp true path with
  | .error error => .error error
  | .ok (place, entry) => ofInput tree path place entry

theorem ofInput_directory (tree : FileTree) (path : FilePath) (place : Location) :
    ofInput tree path place .directory =
      (tree.traverse path place).map fun files => files.map (below path) :=
  rfl

theorem components_of_fileName? {name : String} (h : path.fileName? = some name) :
    path.components.getLast? = some (.name name) := by
  unfold FilePath.fileName? at h
  split at h
  · next hlast => rw [hlast, Option.some.inj h]
  · exact absurd h (by simp)

theorem nodup_joinNames_filesBelow (hformed : tree.IsWellFormed) (dir : Location) :
    ((tree.filesBelow dir).map FilePath.joinNames).Nodup := by
  have hsteps : ∀ names ∈ tree.filesBelow dir,
      FilePath.steps ⟨FilePath.joinNames names⟩ = names := by
    intro names hnames
    obtain ⟨hne, content, hcontent⟩ := mem_filesBelow.mp hnames
    refine FilePath.steps_joinNames hne fun name hname => ?_
    have hgood := hformed.proper _ _ hcontent name (List.mem_append_right _ hname)
    exact ⟨hgood.not_empty, hgood.no_slash⟩
  refine (List.nodup_map_iff_inj_on (tree.nodup_filesBelow dir)).mpr ?_
  intro names hnames others hothers hsame
  rw [← hsteps names hnames, hsame, hsteps others hothers]

/-- What an input gives is determined by what it is. -/
theorem gathered_eq_ok_iff (hformed : tree.IsWellFormed) :
    gathered tree path = .ok files ↔ Gives tree path files := by
  have hsearch : ∀ {dir outcome}, tree.lookUp true path = .ok (dir, .directory) →
      (Searches tree path dir [[]] outcome ↔ outcome = tree.traverse path dir) := by
    intro dir outcome hfound
    exact searches_iff hformed (entryAt_of_lookUp hfound) (short_of_lookUp hfound)
  rw [gathered]
  constructor
  · intro h
    cases hfound : tree.lookUp true path with
    | error error => exact absurd h (by simp [hfound])
    | ok found =>
        obtain ⟨place, entry⟩ := found
        simp only [hfound] at h
        cases entry with
        | link target => exact absurd rfl (lookUp_true_not_link hfound target)
        | file content =>
            obtain ⟨front, name, hsteps, hstep⟩ := last_step_of_lookUp hfound
            have hname := FilePath.fileName?_eq hsteps hstep
            rw [ofInput, hname, Option.getD_some] at h
            obtain rfl := Except.ok.inj h
            exact .file hfound (components_of_fileName? hname)
        | directory =>
            rw [ofInput_directory] at h
            cases htraverse : tree.traverse path place with
            | error error => exact absurd h (by simp [htraverse, Except.map])
            | ok ways =>
                rw [htraverse] at h
                obtain rfl := Except.ok.inj h
                obtain ⟨-, rfl⟩ := traverse_eq_ok_iff.mp htraverse
                exact .directory hfound ((hsearch hfound).mpr htraverse.symm)
                  (fun names => mem_filesBelow) (tree.increasing_filesBelow place)
                  (nodup_joinNames_filesBelow hformed place)
  · intro h
    cases h with
    | @file place content name hfound hlast =>
        have hname : path.fileName? = some name := by
          rw [FilePath.fileName?, hlast]
        simp only [hfound]
        rw [ofInput, hname, Option.getD_some]
    | @directory dir ways hfound hwalked _ _ _ =>
        simp only [hfound]
        rw [ofInput_directory, ← (hsearch hfound).mp hwalked]
        rfl

theorem gathered_error_iff :
    (∃ error, gathered tree path = .error error) ↔
      (∃ error, tree.lookUp true path = .error error) ∨ tree.IsTooDeep path := by
  rw [gathered, isTooDeep_iff]
  cases hfound : tree.lookUp true path with
  | error error => simp
  | ok found =>
      obtain ⟨place, entry⟩ := found
      cases entry with
      | link target => exact absurd rfl (lookUp_true_not_link hfound target)
      | file content => simp [ofInput]
      | directory =>
          have hmap : (∃ error, ofInput tree path place .directory = .error error) ↔
              ∃ error, tree.traverse path place = .error error := by
            rw [ofInput_directory]
            cases tree.traverse path place <;> simp [Except.map]
          simp [hmap, traverse_error_iff]

/-! ## All inputs -/

theorem collect_cons (tree : FileTree) (root input : FilePath) (rest : List FilePath) :
    collect tree root (input :: rest) =
      match gathered tree (root.join input) with
      | .error error => .error error
      | .ok files =>
          match collect tree root rest with
          | .error error => .error error
          | .ok others => .ok (files ++ others) := by
  rw [collect, gathered]
  cases tree.lookUp true (root.join input) with
  | error error => rfl
  | ok found => rfl

theorem collect_eq_ok_iff :
    collect tree root inputs = .ok files ↔
      ∃ parts, List.Forall₂ (fun input part => gathered tree (root.join input) = .ok part)
        inputs parts ∧ files = parts.flatten := by
  induction inputs generalizing files with
  | nil =>
      rw [collect]
      simp [eq_comm]
  | cons input rest ih =>
      rw [collect_cons]
      cases hfirst : gathered tree (root.join input) with
      | error error => simp [List.forall₂_cons_left_iff, hfirst]
      | ok first =>
          cases hothers : collect tree root rest with
          | error error =>
              have hnone : ∀ parts, ¬ List.Forall₂
                  (fun input part => gathered tree (root.join input) = .ok part) rest parts := by
                intro parts hparts
                have hfiles := ih.mpr ⟨parts, hparts, rfl⟩
                rw [hothers] at hfiles
                exact absurd hfiles (by simp)
              simp [List.forall₂_cons_left_iff, hnone]
          | ok others =>
              obtain ⟨parts, hparts, hflat⟩ := ih.mp hothers
              constructor
              · intro h
                obtain rfl := Except.ok.inj h
                refine ⟨first :: parts, .cons hfirst hparts, ?_⟩
                rw [List.flatten_cons, hflat]
              · rintro ⟨_, hall, rfl⟩
                obtain ⟨part, more, hpart, hmore, rfl⟩ := List.forall₂_cons_left_iff.mp hall
                rw [hfirst] at hpart
                obtain rfl := Except.ok.inj hpart
                have hsame := ih.mpr ⟨more, hmore, rfl⟩
                rw [hothers] at hsame
                rw [Except.ok.inj hsame, List.flatten_cons]

/-- One input that gives nothing is enough for nothing to be collected. -/
theorem collect_error_iff :
    (∃ error, collect tree root inputs = .error error) ↔
      ∃ input ∈ inputs, ∃ error, gathered tree (root.join input) = .error error := by
  induction inputs with
  | nil => simp [collect]
  | cons input rest ih =>
      rw [collect_cons, List.exists_mem_cons_iff, ← ih]
      cases gathered tree (root.join input) with
      | error error => simp
      | ok files =>
          cases collect tree root rest with
          | error error => simp
          | ok others => simp

/-- In a tree without links the inputs of an asset are collected as a whole or not at all. They are
not exactly if one of them cannot be looked up or is too deep to be gone through. Otherwise every
input gives its files in its turn, and their names lead down. -/
theorem inputs_are_collected_completely (h : tree.IsPlain) (root : FilePath)
    (inputs : List FilePath) :
    ((∃ error, collect tree root inputs = .error error) ↔
        ∃ input ∈ inputs, (∃ error, tree.lookUp true (root.join input) = .error error) ∨
          tree.IsTooDeep (root.join input)) ∧
      (∀ input ∈ inputs, ∀ error, tree.lookUp true (root.join input) = .error error →
        error ∈ plainCauses) ∧
      (∀ files, collect tree root inputs = .ok files ↔
        ∃ parts, List.Forall₂ (fun input part => Gives tree (root.join input) part) inputs parts ∧
          files = parts.flatten) ∧
      ∀ files, collect tree root inputs = .ok files → ∀ file ∈ files,
        file.name ≠ "" ∧ file.name.toList.head? ≠ some '/' ∧
          ∀ component ∈ FilePath.components ⟨file.name⟩, ∃ part, component = .name part := by
  refine ⟨?_, ?_, ?_, ?_⟩
  · simp only [collect_error_iff, gathered_error_iff]
  · exact fun input _ error herror => h.lookUp_cause herror
  · intro files
    simp only [collect_eq_ok_iff, gathered_eq_ok_iff h.toIsWellFormed]
  · intro files hfiles file hfile
    have hname := isBlobName_of_collected h.toIsWellFormed hfiles file hfile
    refine ⟨hname.not_empty, hname.relative, fun component hcomponent => ?_⟩
    have hplain := isPlainName_iff.mpr hname
    rw [isPlainName, Bool.and_eq_true, List.all_eq_true] at hplain
    have hthis := hplain.2 component hcomponent
    cases component with
    | name part => exact ⟨part, rfl⟩
    | root => exact absurd hthis (by simp)
    | here => exact absurd hthis (by simp)
    | up => exact absurd hthis (by simp)

end CollectedFile

namespace SortedInputs

def tree : FileTree :=
  (((FileTree.empty.put ["in"] .directory).put ["in", "a"] .directory).put ["in", "a", "b"]
    (.file [1])).put ["in", "a-b"] (.file [2])

end SortedInputs

namespace CollectedFile

/-- What lies below a name comes before a longer name, and an input that is given twice gives its
files twice. -/
theorem inputs_are_collected_sorted :
    SortedInputs.tree.IsPlain ∧
      ∃ parts, List.Forall₂
          (fun input part => Gives SortedInputs.tree (FilePath.join ⟨"."⟩ input) part)
          [⟨"in"⟩, ⟨"in/a-b"⟩] parts ∧
        [⟨⟨"./in/a/b"⟩, "a/b"⟩, ⟨⟨"./in/a-b"⟩, "a-b"⟩, ⟨⟨"./in/a-b"⟩, "a-b"⟩] = parts.flatten := by
  have hplain : SortedInputs.tree.IsPlain := by decide +kernel
  obtain ⟨-, -, hcollected, -⟩ :=
    inputs_are_collected_completely hplain ⟨"."⟩ [⟨"in"⟩, ⟨"in/a-b"⟩]
  exact ⟨hplain, (hcollected _).mp (by decide +kernel)⟩

end CollectedFile

/-! ## An input that is found and not collected -/

namespace FilePath

def slashes (count : Nat) : String := String.ofList (List.replicate count '/')

@[simp] theorem utf8ByteSize_slashes (count : Nat) : (slashes count).utf8ByteSize = count := by
  rw [slashes, String.utf8ByteSize_ofList]
  induction count with
  | zero => rfl
  | succ count ih =>
      rw [List.replicate_succ, String.utf8Len_cons, ih]
      rfl

theorem steps_append_slashes (text : String) (count : Nat) :
    steps ⟨text ++ slashes count⟩ = steps ⟨text⟩ := by
  induction count generalizing text with
  | zero => simp [slashes]
  | succ count ih =>
      have hone : text ++ slashes (count + 1) = text ++ "/" ++ slashes count := by
        apply String.toList_injective
        simp [slashes, List.replicate_succ]
      have hempty : steps ⟨""⟩ = [] := by decide
      have hslash := steps_append_slash text ""
      rw [String.append_empty, hempty, List.append_nil] at hslash
      rw [hone, ih, hslash]

theorem not_mem_slashes {c : Char} (h : c ≠ '/') (count : Nat) : c ∉ (slashes count).toList := by
  rw [slashes, String.toList_ofList, List.mem_replicate]
  exact fun hmem => h hmem.2

@[simp] theorem below_singleton (dir : FilePath) (name : String) :
    dir.below [name] = dir.join ⟨name⟩ :=
  rfl

theorem utf8ByteSize_join_le (base : FilePath) {next : FilePath} (hnext : next.isAbsolute = false) :
    base.text.utf8ByteSize + next.text.utf8ByteSize ≤ (base.join next).text.utf8ByteSize := by
  rw [join, hnext, if_neg Bool.false_ne_true]
  split
  · next hempty => rw [hempty, String.utf8ByteSize_empty, Nat.zero_add]
  · split
    · rw [String.utf8ByteSize_append]
    · rw [String.utf8ByteSize_append, String.utf8ByteSize_append]
      omega

end FilePath

namespace DeepInput

def input : FilePath := ⟨"in" ++ FilePath.slashes 4090⟩

def tree : FileTree :=
  ((FileTree.empty.put ["in"] .directory).put ["in", "deep"] .directory).put ["in", "deep", "a"]
    (.file [65])

theorem isAbsolute_input : input.isAbsolute = false := by
  rw [input, FilePath.isAbsolute_append (by decide)]
  decide

theorem text_joined :
    (FilePath.join ⟨"."⟩ input).text = "." ++ "/" ++ ("in" ++ FilePath.slashes 4090) :=
  FilePath.text_join isAbsolute_input (by decide) (by decide)

theorem utf8ByteSize_joined : (FilePath.join ⟨"."⟩ input).text.utf8ByteSize = 4094 := by
  rw [text_joined]
  simp only [String.utf8ByteSize_append, FilePath.utf8ByteSize_slashes]
  decide

theorem steps_joined : (FilePath.join ⟨"."⟩ input).steps = [".", "in"] := by
  rw [FilePath.steps_join isAbsolute_input, input, FilePath.steps_append_slashes]
  decide

theorem isSearchable_joined : FileTree.IsSearchable (FilePath.join ⟨"."⟩ input) := by
  refine ⟨?_, ?_, ?_⟩
  · have hslashes := FilePath.not_mem_slashes (c := '\x00') (by decide) 4090
    rw [text_joined]
    simp [hslashes]
  · apply FilePath.text_ne_empty
    rw [steps_joined]
    simp
  · rw [utf8ByteSize_joined]
    decide

theorem isPlain_tree : tree.IsPlain := by
  decide +kernel

theorem lookUp_joined :
    tree.lookUp true (FilePath.join ⟨"."⟩ input) = .ok (["in"], .directory) := by
  have hstart : tree.startOf (FilePath.join ⟨"."⟩ input) = [] := by
    unfold startOf
    split <;> rfl
  have hresolve : tree.resolve (.see true) (FilePath.join ⟨"."⟩ input) =
      .ok (.child [] "in", (FilePath.join ⟨"."⟩ input).endsWithSlash) := by
    rw [isPlain_tree.resolve_eq_walk isSearchable_joined, hstart, steps_joined, walk_here,
      walk_last rfl ⟨by decide, by decide⟩]
    rfl
  exact lookUp_eq_ok_iff.mpr ⟨_, _, hresolve, rfl, by decide +kernel, fun hnot => absurd rfl hnot⟩

theorem isTooDeep_joined : tree.IsTooDeep (FilePath.join ⟨"."⟩ input) := by
  refine ⟨["in"], ["deep"], lookUp_joined, by decide +kernel, ?_⟩
  have hname : FilePath.isAbsolute ⟨"deep"⟩ = false := by decide
  have hsize := FilePath.utf8ByteSize_join_le (FilePath.join ⟨"."⟩ input) hname
  rw [utf8ByteSize_joined] at hsize
  rw [FilePath.below_singleton]
  exact Nat.le_trans (by decide) hsize

end DeepInput

namespace CollectedFile

/-- The path of an input can be looked up while that of a directory below is too long, and then
nothing is collected. -/
theorem found_input_is_not_collected :
    DeepInput.tree.IsPlain ∧
      (∃ error, collect DeepInput.tree ⟨"."⟩ [DeepInput.input] = .error error) ∧
      ∀ input ∈ [DeepInput.input],
        ¬ ∃ error, DeepInput.tree.lookUp true (FilePath.join ⟨"."⟩ input) = .error error := by
  refine ⟨DeepInput.isPlain_tree, ?_, ?_⟩
  · rw [collect_error_iff]
    exact ⟨_, List.mem_singleton_self _, gathered_error_iff.mpr (.inr DeepInput.isTooDeep_joined)⟩
  · intro input hinput
    rw [List.mem_singleton.mp hinput, DeepInput.lookUp_joined]
    simp

end CollectedFile

end MediaMigration
