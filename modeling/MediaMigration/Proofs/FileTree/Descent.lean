import MediaMigration.FileTree.Traversal
import MediaMigration.Proofs.FileTree.WellFormed

/-!
# Going down from a directory

A path that leads to a directory can be continued by the names of what lies below it. The
links on the way are the same, so the longer path leads to where the names say, if it can be
looked up at all.
-/

namespace MediaMigration

namespace FileTree

variable {tree : FileTree}

/-! ## Longer walks -/

theorem Walks.append_of_link {dir parent : Location} {steps rest : List String}
    {target : String} (h : Walks tree dir steps (.atLink parent target rest))
    (more : List String) :
    Walks tree dir (steps ++ more) (.atLink parent target (rest ++ more)) := by
  generalize hhalt : Halt.atLink parent target rest = halt at h
  induction h with
  | stop _ => exact absurd hhalt (by simp)
  | stay hdir _ ih => exact .stay hdir (ih hhalt)
  | up hdir _ ih => exact .up hdir (ih hhalt)
  | last _ _ => exact absurd hhalt (by simp)
  | link hdir hstep hshort hmore hlink =>
      cases hhalt
      exact .link hdir hstep hshort (by simp [hmore]) hlink
  | enter hdir hstep hshort hmore _ ih =>
      exact .enter hdir hstep hshort (by simp [hmore]) (ih hhalt)

/-- Where a walk has arrived another one can begin. -/
theorem Walks.append {dir : Location} {steps more : List String} {spot : Spot} {halt : Halt}
    (h : Walks tree dir steps (.arrived spot))
    (hshort : ∀ parent name, spot = .child parent name → name.utf8ByteSize ≤ maxNameBytes)
    (hnext : more ≠ []) (hmore : Walks tree spot.place more halt) :
    Walks tree dir (steps ++ more) halt := by
  generalize hhalt : Halt.arrived spot = found at h
  induction h with
  | stop _ =>
      cases hhalt
      exact hmore
  | stay hdir _ ih => exact .stay hdir (ih hhalt)
  | up hdir _ ih => exact .up hdir (ih hhalt)
  | last hdir hstep =>
      cases hhalt
      exact .enter hdir hstep (hshort _ _ rfl) hnext hmore
  | link => exact absurd hhalt (by simp)
  | enter hdir hstep hname hrest _ ih => exact .enter hdir hstep hname (by simp [hrest]) (ih hhalt)

theorem Walks.append_at_link {dir parent : Location} {steps more : List String}
    {name target : String} (h : Walks tree dir steps (.arrived (.child parent name)))
    (hshort : name.utf8ByteSize ≤ maxNameBytes) (hnext : more ≠ [])
    (hlink : tree.entryAt (parent ++ [name]) = some (.link target)) :
    Walks tree dir (steps ++ more) (.atLink parent target more) := by
  generalize hhalt : Halt.arrived (.child parent name) = found at h
  induction h with
  | stop _ => exact absurd hhalt (by simp)
  | stay hdir _ ih => exact .stay hdir (ih hhalt)
  | up hdir _ ih => exact .up hdir (ih hhalt)
  | last hdir hstep =>
      cases hhalt
      exact .link hdir hstep hshort hnext hlink
  | link => exact absurd hhalt (by simp)
  | enter hdir hstep hname hrest _ ih => exact .enter hdir hstep hname (by simp [hrest]) (ih hhalt)

theorem IsWellFormed.walks_below (h : tree.IsWellFormed) {dir : Location} {names : List String}
    (hnames : names ≠ []) (hthere : tree.entryAt (dir ++ names) ≠ none) :
    ∃ parent name, Walks tree dir names (.arrived (.child parent name)) ∧
      parent ++ [name] = dir ++ names ∧ IsProperName name := by
  induction names generalizing dir with
  | nil => exact absurd rfl hnames
  | cons first rest ih =>
      obtain ⟨entry, hentry⟩ := Option.ne_none_iff_exists'.mp hthere
      have hfirst : IsProperName first := h.proper _ entry hentry first (by simp)
      have hdir : tree.entryAt dir = some .directory :=
        h.directory_of_prefix hthere (List.prefix_append dir _) (by simp)
      cases rest with
      | nil => exact ⟨dir, first, .last hdir hfirst.is_step, rfl, hfirst⟩
      | cons next others =>
          rw [List.append_cons] at hthere
          obtain ⟨parent, name, hwalk, hplace, hname⟩ := ih (List.cons_ne_nil next others) hthere
          refine ⟨parent, name, .enter hdir hfirst.is_step hfirst.short (by simp) hwalk, ?_, hname⟩
          rw [hplace]
          simp

/-! ## Longer paths -/

theorem Leads.append {links : Nat} {dir parent : Location} {steps names : List String}
    {slash ended : Bool} {spot : Spot} {name : String}
    (h : Leads tree (.see true) links dir steps slash (spot, ended)) (hnames : names ≠ [])
    (hwalk : Walks tree spot.place names (.arrived (.child parent name)))
    (hshort : name.utf8ByteSize ≤ maxNameBytes)
    (hlink : ∀ target, tree.entryAt (parent ++ [name]) ≠ some (.link target)) :
    Leads tree (.see true) links dir (steps ++ names) false (.child parent name, false) := by
  generalize hfound : (spot, ended) = found at h
  induction h with
  | @arrive links dir steps slash arrived hhalt =>
      cases hfound
      have hwhole : Walks tree dir (steps ++ names) (.arrived (.child parent name)) := by
        cases hhalt with
        | self hfirst => exact hfirst.append (by simp) hnames hwalk
        | child hfirst _ hname _ =>
            refine hfirst.append ?_ hnames hwalk
            rintro _ _ ⟨⟩
            exact hname
      exact .arrive (.child hwhole rfl hshort fun _ => hlink)
  | @follow links dir above steps rest slash target found hhalt htarget _ ih =>
      have hlead := ih hfound
      rw [List.append_assoc] at hlead
      have hlonger : Halts tree (.see true) dir (steps ++ names) false
          (.atLink above target (rest ++ names)) := by
        cases hhalt with
        | atLink hfirst => exact .atLink (hfirst.append_of_link names)
        | lastLink hfirst _ hname _ hentry =>
            exact .atLink (hfirst.append_at_link hname hnames hentry)
      refine .follow hlonger htarget ?_
      have hmore : rest ++ names ≠ [] := by simp [hnames]
      rw [if_neg hmore]
      exact hlead

/-- What lies below the directory of a path is found by going on with its names. -/
theorem IsWellFormed.lookUp_below (h : tree.IsWellFormed) {base path : FilePath}
    {dir : Location} {names : List String} {content : Bytes}
    (hbase : tree.lookUp true base = .ok (dir, .directory)) (hnames : names ≠ [])
    (hfile : tree.entryAt (dir ++ names) = some (.file content)) (hpath : IsSearchable path)
    (hstart : path.isAbsolute = base.isAbsolute) (hsteps : path.steps = base.steps ++ names)
    (hslash : path.endsWithSlash = false) :
    tree.lookUp true path = .ok (dir ++ names, .file content) := by
  obtain ⟨spot, slash, hr, rfl, _, _⟩ := lookUp_eq_ok_iff.mp hbase
  obtain ⟨_, hlead⟩ := resolve_eq_ok_iff.mp hr
  have hthere : tree.entryAt (spot.place ++ names) ≠ none := by simp [hfile]
  obtain ⟨parent, name, hwalk, hplace, hname⟩ := h.walks_below hnames hthere
  have hlink : ∀ target, tree.entryAt (parent ++ [name]) ≠ some (.link target) := by
    intro target
    rw [hplace, hfile]
    simp
  have hwhole := hlead.append hnames hwalk hname.short hlink
  refine lookUp_eq_ok_iff.mpr ⟨.child parent name, false, ?_, hplace, hfile, fun _ => rfl⟩
  refine resolve_eq_ok_iff.mpr ⟨hpath, ?_⟩
  rw [hstart, hsteps, hslash]
  exact hwhole

theorem lookUp_true_of_false {path : FilePath} {place : Location} {entry : Entry}
    (h : tree.lookUp false path = .ok (place, entry)) (hlink : ∀ target, entry ≠ .link target) :
    tree.lookUp true path = .ok (place, entry) := by
  obtain ⟨spot, slash, hr, rfl, hentry, hslash⟩ := lookUp_eq_ok_iff.mp h
  obtain ⟨hpath, hlead⟩ := resolve_eq_ok_iff.mp hr
  have hnot : ∀ target, tree.entryAt spot.place ≠ some (.link target) := by
    intro target heq
    rw [hentry] at heq
    exact hlink target (Option.some.inj heq)
  exact lookUp_eq_ok_iff.mpr
    ⟨spot, slash, resolve_eq_ok_iff.mpr ⟨hpath, hlead.seen hnot⟩, rfl, hentry, hslash⟩

/-! ## What lies below -/

theorem below?_eq_some_iff {dir place rest : Location} :
    below? dir place = some rest ↔ place = dir ++ rest ∧ rest ≠ [] := by
  unfold below?
  constructor
  · intro h
    split at h
    · next hbelow =>
        have hfront := hbelow.1
        obtain ⟨more, rfl⟩ := List.isPrefixOf_iff_prefix.mp hfront
        rw [List.drop_left, Option.some.injEq] at h
        subst h
        refine ⟨rfl, ?_⟩
        rintro rfl
        simp at hbelow
    · exact absurd h (by simp)
  · rintro ⟨rfl, hne⟩
    have hlonger : dir.length < (dir ++ rest).length := by
      rw [List.length_append]
      have hpos := List.length_pos_iff.mpr hne
      omega
    rw [if_pos ⟨List.isPrefixOf_iff_prefix.mpr (List.prefix_append dir rest), hlonger⟩,
      List.drop_left]

theorem mem_entriesBelow {dir names : Location} {entry : Entry} :
    (names, entry) ∈ tree.entriesBelow dir ↔
      names ≠ [] ∧ tree.entries[dir ++ names]? = some entry := by
  simp only [entriesBelow, toList, List.mem_filterMap, Option.map_eq_some_iff, Prod.exists,
    Std.ExtTreeMap.mem_toList_iff_getElem?_eq_some, below?_eq_some_iff]
  constructor
  · rintro ⟨place, found, hfound, rest, ⟨rfl, hne⟩, heq⟩
    obtain ⟨rfl, rfl⟩ := Prod.mk.inj heq
    exact ⟨hne, hfound⟩
  · rintro ⟨hne, hfound⟩
    exact ⟨_, entry, hfound, names, ⟨rfl, hne⟩, rfl⟩

theorem mem_filesBelow {dir names : Location} :
    names ∈ tree.filesBelow dir ↔
      names ≠ [] ∧ ∃ content, tree.entryAt (dir ++ names) = some (.file content) := by
  simp only [filesBelow, List.mem_filterMap, Prod.exists, mem_entriesBelow]
  constructor
  · rintro ⟨place, entry, ⟨hne, hentry⟩, hfile⟩
    cases entry with
    | file content =>
        obtain rfl := Option.some.inj hfile
        refine ⟨hne, content, ?_⟩
        rw [entryAt, if_neg (by simp [hne]), hentry]
    | directory => exact absurd hfile (by simp)
    | link target => exact absurd hfile (by simp)
  · rintro ⟨hne, content, hentry⟩
    rw [entryAt, if_neg (by simp [hne])] at hentry
    exact ⟨names, .file content, ⟨hne, hentry⟩, rfl⟩

theorem entriesBelow_ordered (tree : FileTree) (dir : Location) :
    (tree.entriesBelow dir).Pairwise fun first second =>
      compare (dir ++ first.1) (dir ++ second.1) = .lt := by
  refine List.Pairwise.filterMap _ ?_ Std.ExtTreeMap.ordered_keys_toList
  rintro ⟨place, entry⟩ ⟨other, otherEntry⟩ hless
  intro first hfirst second hsecond
  obtain ⟨names, hnames, rfl⟩ := Option.map_eq_some_iff.mp hfirst
  obtain ⟨others, hothers, rfl⟩ := Option.map_eq_some_iff.mp hsecond
  have hplace := (below?_eq_some_iff.mp hnames).1
  have hother := (below?_eq_some_iff.mp hothers).1
  rw [hplace, hother] at hless
  exact hless

theorem nodup_of_ordered {α : Type} {location : α → Location} {entries : List α}
    (h : entries.Pairwise fun first second => compare (location first) (location second) = .lt) :
    entries.Nodup := by
  refine h.imp ?_
  rintro first _ hless rfl
  simp at hless

theorem eq_of_ordered {α : Type} {location : α → Location} {entries others : List α}
    (h : entries.Pairwise fun first second => compare (location first) (location second) = .lt)
    (hothers :
      others.Pairwise fun first second => compare (location first) (location second) = .lt)
    (hmem : ∀ entry, entry ∈ entries ↔ entry ∈ others) : entries = others := by
  refine List.Perm.eq_of_pairwise ?_ h hothers
    ((List.perm_ext_iff_of_nodup (nodup_of_ordered h) (nodup_of_ordered hothers)).mpr hmem)
  intro first second _ _ hless hmore
  exact absurd hmore (Std.OrientedCmp.not_lt_of_lt hless)

theorem filesBelow_ordered (tree : FileTree) (dir : Location) :
    (tree.filesBelow dir).Pairwise fun first second =>
      compare (dir ++ first) (dir ++ second) = .lt := by
  refine List.Pairwise.filterMap _ ?_ (tree.entriesBelow_ordered dir)
  rintro ⟨first, entry⟩ ⟨second, otherEntry⟩ hless names hnames others hothers
  cases entry with
  | directory => exact absurd hnames (by simp)
  | link target => exact absurd hnames (by simp)
  | file content =>
      cases otherEntry with
      | directory => exact absurd hothers (by simp)
      | link target => exact absurd hothers (by simp)
      | file otherContent =>
          obtain rfl := Option.some.inj hnames
          obtain rfl := Option.some.inj hothers
          exact hless

theorem nodup_filesBelow (tree : FileTree) (dir : Location) : (tree.filesBelow dir).Nodup :=
  nodup_of_ordered (tree.filesBelow_ordered dir)

/-- What is listed below a directory depends on the entries there only. -/
theorem entriesBelow_eq {later : FileTree} {dir : Location}
    (h : ∀ names, later.entryAt (dir ++ names) = tree.entryAt (dir ++ names)) :
    later.entriesBelow dir = tree.entriesBelow dir := by
  refine eq_of_ordered (later.entriesBelow_ordered dir) (tree.entriesBelow_ordered dir) ?_
  rintro ⟨names, entry⟩
  rw [mem_entriesBelow, mem_entriesBelow]
  refine and_congr_right fun hne => ?_
  have hsame := h names
  have hbelow : dir ++ names ≠ [] := by simp [hne]
  rw [entryAt, entryAt, if_neg hbelow, if_neg hbelow] at hsame
  rw [hsame]

theorem traverse_eq {later : FileTree} {dir : Location}
    (h : ∀ names, later.entryAt (dir ++ names) = tree.entryAt (dir ++ names))
    (path : FilePath) : later.traverse path dir = tree.traverse path dir := by
  have hentries := entriesBelow_eq h
  rw [traverse, traverse, outOfReach?, outOfReach?, directoriesBelow, directoriesBelow, filesBelow,
    filesBelow, hentries]

end FileTree

end MediaMigration
