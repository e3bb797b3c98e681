import MediaMigration.FileTree.Resolution

/-!
# What resolving a path meets

Following steps succeeds exactly when each of them starts from a directory that is there, so
a successful walk is a derivation: it stays, goes up, enters a directory, or halts at a link
or at its last step. Every fact about resolution is read off these derivations instead of
off the walk itself.
-/

namespace MediaMigration

namespace FileTree

def Halt.dir : Halt → Location
  | arrived (.self place) => place
  | arrived (.child parent _) => parent
  | atLink parent _ _ => parent

def IsNameStep (step : String) : Prop :=
  step ≠ "." ∧ step ≠ ".."

inductive Walks (tree : FileTree) : Location → List String → Halt → Prop
  | stop {dir : Location} (hdir : tree.entryAt dir = some .directory) :
      Walks tree dir [] (.arrived (.self dir))
  | stay {dir : Location} {rest : List String} {halt : Halt}
      (hdir : tree.entryAt dir = some .directory) (hrest : Walks tree dir rest halt) :
      Walks tree dir ("." :: rest) halt
  | up {dir : Location} {rest : List String} {halt : Halt}
      (hdir : tree.entryAt dir = some .directory) (hrest : Walks tree dir.dropLast rest halt) :
      Walks tree dir (".." :: rest) halt
  | last {dir : Location} {step : String} (hdir : tree.entryAt dir = some .directory)
      (hstep : IsNameStep step) : Walks tree dir [step] (.arrived (.child dir step))
  | link {dir : Location} {step target : String} {rest : List String}
      (hdir : tree.entryAt dir = some .directory) (hstep : IsNameStep step)
      (hshort : step.utf8ByteSize ≤ maxNameBytes) (hmore : rest ≠ [])
      (hlink : tree.entryAt (dir ++ [step]) = some (.link target)) :
      Walks tree dir (step :: rest) (.atLink dir target rest)
  | enter {dir : Location} {step : String} {rest : List String} {halt : Halt}
      (hdir : tree.entryAt dir = some .directory) (hstep : IsNameStep step)
      (hshort : step.utf8ByteSize ≤ maxNameBytes) (hmore : rest ≠ [])
      (hrest : Walks tree (dir ++ [step]) rest halt) : Walks tree dir (step :: rest) halt

/-- The successful walks with what the last step adds: a link there is followed or is what
the path leads to, as the purpose says. -/
inductive Halts (tree : FileTree) (purpose : Purpose) (dir : Location) (steps : List String)
    (slash : Bool) : Halt → Prop
  | atLink {parent : Location} {target : String} {rest : List String}
      (hwalk : Walks tree dir steps (.atLink parent target rest)) :
      Halts tree purpose dir steps slash (.atLink parent target rest)
  | self {place : Location} (hwalk : Walks tree dir steps (.arrived (.self place))) :
      Halts tree purpose dir steps slash (.arrived (.self place))
  | child {parent : Location} {name : String}
      (hwalk : Walks tree dir steps (.arrived (.child parent name)))
      (hrefuse : purpose.refuses slash = false) (hshort : name.utf8ByteSize ≤ maxNameBytes)
      (hlink : purpose.follows slash = true →
        ∀ target, tree.entryAt (parent ++ [name]) ≠ some (.link target)) :
      Halts tree purpose dir steps slash (.arrived (.child parent name))
  | lastLink {parent : Location} {name target : String}
      (hwalk : Walks tree dir steps (.arrived (.child parent name)))
      (hrefuse : purpose.refuses slash = false) (hshort : name.utf8ByteSize ≤ maxNameBytes)
      (hfollow : purpose.follows slash = true)
      (hlink : tree.entryAt (parent ++ [name]) = some (.link target)) :
      Halts tree purpose dir steps slash (.atLink parent target [])

/-- The successful resolutions of steps with a number of links to spare. -/
inductive Leads (tree : FileTree) (purpose : Purpose) :
    Nat → Location → List String → Bool → Spot × Bool → Prop
  | arrive {links : Nat} {dir : Location} {steps : List String} {slash : Bool} {spot : Spot}
      (hhalt : Halts tree purpose dir steps slash (.arrived spot)) :
      Leads tree purpose links dir steps slash (spot, slash)
  | follow {links : Nat} {dir parent : Location} {steps rest : List String} {slash : Bool}
      {target : String} {found : Spot × Bool}
      (hhalt : Halts tree purpose dir steps slash (.atLink parent target rest))
      (htarget : target ≠ "")
      (hlead : Leads tree purpose links (if (FilePath.mk target).isAbsolute then [] else parent)
        ((FilePath.mk target).steps ++ rest)
        (if rest = [] then slash || (FilePath.mk target).endsWithSlash else slash) found) :
      Leads tree purpose (links + 1) dir steps slash found

/-- A path that the system looks at. -/
structure IsSearchable (path : FilePath) : Prop where
  no_nul : '\x00' ∉ path.text.toList
  not_empty : path.text ≠ ""
  short : path.text.utf8ByteSize < maxPathBytes

variable {tree : FileTree}

@[simp] theorem requireDirectory_ok_iff {place : Location} :
    tree.requireDirectory place = .ok () ↔ tree.entryAt place = some .directory := by
  unfold requireDirectory
  cases tree.entryAt place with
  | none => simp
  | some entry => cases entry <;> simp

theorem Walks.directory {dir : Location} {steps : List String} {halt : Halt}
    (h : Walks tree dir steps halt) : tree.entryAt dir = some .directory := by
  cases h <;> assumption

theorem Walks.directory_at_end {dir : Location} {steps : List String} {halt : Halt}
    (h : Walks tree dir steps halt) :
    tree.entryAt halt.dir = some .directory := by
  induction h with
  | stop hdir => exact hdir
  | stay _ _ ih => exact ih
  | up _ _ ih => exact ih
  | last hdir _ => exact hdir
  | link hdir _ _ _ _ => exact hdir
  | enter _ _ _ _ _ ih => exact ih

/-! ## One step of a walk -/

section Step

variable {dir : Location} {step : String} {rest : List String}

theorem walk_of_not_directory {error : IoError} (hdir : tree.requireDirectory dir = .error error)
    (steps : List String) : tree.walk dir steps = .error error := by
  cases steps with
  | nil => rw [walk, hdir]
  | cons step rest => rw [walk.eq_def, hdir]

@[simp] theorem walk_here (tree : FileTree) (dir : Location) (rest : List String) :
    tree.walk dir ("." :: rest) = tree.walk dir rest := by
  cases hdir : tree.requireDirectory dir with
  | error error => rw [walk_of_not_directory hdir, walk_of_not_directory hdir]
  | ok _ =>
      rw [walk.eq_def, hdir]
      rfl

variable (hdir : tree.entryAt dir = some .directory)
include hdir

@[simp] theorem walk_stop : tree.walk dir [] = .ok (.arrived (.self dir)) := by
  rw [walk, requireDirectory_ok_iff.mpr hdir]

@[simp] theorem walk_up (rest : List String) :
    tree.walk dir (".." :: rest) = tree.walk dir.dropLast rest := by
  rw [walk.eq_def, requireDirectory_ok_iff.mpr hdir]
  rfl

theorem walk_last (hstep : IsNameStep step) :
    tree.walk dir [step] = .ok (.arrived (.child dir step)) := by
  rw [walk.eq_def, requireDirectory_ok_iff.mpr hdir]
  simp only [if_neg hstep.1, if_neg hstep.2]

theorem walk_long (hstep : IsNameStep step) (hrest : rest ≠ [])
    (hlong : maxNameBytes < step.utf8ByteSize) :
    tree.walk dir (step :: rest) = .error .nameTooLong := by
  obtain ⟨next, others, rfl⟩ := List.exists_cons_of_ne_nil hrest
  rw [walk.eq_def, requireDirectory_ok_iff.mpr hdir]
  simp only [if_neg hstep.1, if_neg hstep.2, if_pos hlong]

theorem walk_link (hstep : IsNameStep step) (hshort : step.utf8ByteSize ≤ maxNameBytes)
    (hrest : rest ≠ []) {target : String}
    (hlink : tree.entryAt (dir ++ [step]) = some (.link target)) :
    tree.walk dir (step :: rest) = .ok (.atLink dir target rest) := by
  obtain ⟨next, others, rfl⟩ := List.exists_cons_of_ne_nil hrest
  rw [walk.eq_def, requireDirectory_ok_iff.mpr hdir]
  simp only [if_neg hstep.1, if_neg hstep.2, if_neg (Nat.not_lt.mpr hshort), hlink]

theorem walk_name (hstep : IsNameStep step) (hshort : step.utf8ByteSize ≤ maxNameBytes)
    (hrest : rest ≠ []) (hlink : ∀ target, tree.entryAt (dir ++ [step]) ≠ some (.link target)) :
    tree.walk dir (step :: rest) = tree.walk (dir ++ [step]) rest := by
  obtain ⟨next, others, rfl⟩ := List.exists_cons_of_ne_nil hrest
  rw [walk.eq_def, requireDirectory_ok_iff.mpr hdir]
  simp only [if_neg hstep.1, if_neg hstep.2, if_neg (Nat.not_lt.mpr hshort)]
  cases hentry : tree.entryAt (dir ++ [step]) with
  | none =>
      refine (walk_of_not_directory ?_ _).symm
      rw [requireDirectory, hentry]
  | some entry =>
      cases entry with
      | link target => exact absurd hentry (hlink target)
      | file content => rfl
      | directory => rfl

theorem walk_enter (hstep : IsNameStep step) (hshort : step.utf8ByteSize ≤ maxNameBytes)
    (hrest : rest ≠ []) (hentry : tree.entryAt (dir ++ [step]) = some .directory) :
    tree.walk dir (step :: rest) = tree.walk (dir ++ [step]) rest :=
  walk_name hdir hstep hshort hrest (by simp [hentry])

theorem walk_missing (hstep : IsNameStep step) (hshort : step.utf8ByteSize ≤ maxNameBytes)
    (hrest : rest ≠ []) (hentry : tree.entryAt (dir ++ [step]) = none) :
    tree.walk dir (step :: rest) = .error .notFound := by
  rw [walk_name hdir hstep hshort hrest (by simp [hentry])]
  apply walk_of_not_directory
  rw [requireDirectory, hentry]

end Step

/-! ## Walks are what the walk does -/

theorem Walks.walk_eq {dir : Location} {steps : List String} {halt : Halt}
    (h : Walks tree dir steps halt) : tree.walk dir steps = .ok halt := by
  induction h with
  | stop hdir => exact walk_stop hdir
  | stay _ _ ih => exact (walk_here _ _ _).trans ih
  | up hdir _ ih => exact (walk_up hdir _).trans ih
  | last hdir hstep => exact walk_last hdir hstep
  | link hdir hstep hshort hmore hlink => exact walk_link hdir hstep hshort hmore hlink
  | enter hdir hstep hshort hmore hrest ih =>
      exact (walk_enter hdir hstep hshort hmore hrest.directory).trans ih

theorem walks_of_walk_eq {dir : Location} {steps : List String} {halt : Halt}
    (h : tree.walk dir steps = .ok halt) : Walks tree dir steps halt := by
  fun_induction walk tree dir steps with
  | case1 | case3 | case7 | case8 => exact absurd h (by simp)
  | case2 dir hdir => exact Except.ok.inj h ▸ .stop (requireDirectory_ok_iff.mp hdir)
  | case4 dir rest hdir ih => exact .stay (requireDirectory_ok_iff.mp hdir) (ih h)
  | case5 dir rest hdir _ ih => exact .up (requireDirectory_ok_iff.mp hdir) (ih h)
  | case6 dir step hdir hdot hup =>
      exact Except.ok.inj h ▸ .last (requireDirectory_ok_iff.mp hdir) ⟨hdot, hup⟩
  | case9 dir step hdir hdot hup next others hlong target hlink =>
      exact Except.ok.inj h ▸ .link (requireDirectory_ok_iff.mp hdir) ⟨hdot, hup⟩
        (Nat.not_lt.mp hlong) (List.cons_ne_nil next others) hlink
  | case10 dir step hdir hdot hup next others hlong _ _ _ ih =>
      exact .enter (requireDirectory_ok_iff.mp hdir) ⟨hdot, hup⟩ (Nat.not_lt.mp hlong)
        (List.cons_ne_nil next others) (ih h)

theorem walk_eq_ok_iff {dir : Location} {steps : List String} {halt : Halt} :
    tree.walk dir steps = .ok halt ↔ Walks tree dir steps halt :=
  ⟨walks_of_walk_eq, Walks.walk_eq⟩

theorem Walks.unique {dir : Location} {steps : List String} {first second : Halt}
    (h : Walks tree dir steps first) (g : Walks tree dir steps second) : first = second :=
  Except.ok.inj (h.walk_eq.symm.trans g.walk_eq)

theorem Halts.walkTo_eq {purpose : Purpose} {dir : Location} {steps : List String}
    {slash : Bool} {halt : Halt} (h : Halts tree purpose dir steps slash halt) :
    tree.walkTo purpose dir steps slash = .ok halt := by
  unfold walkTo
  cases h with
  | atLink hwalk => rw [walk_eq_ok_iff.mpr hwalk]
  | self hwalk => rw [walk_eq_ok_iff.mpr hwalk]
  | child hwalk hrefuse hshort hlink =>
      rw [walk_eq_ok_iff.mpr hwalk]
      simp only [hrefuse, Bool.false_eq_true, if_false, if_neg (Nat.not_lt.mpr hshort)]
      split
      · next heq =>
          split
          · next hfollow => exact absurd heq (hlink hfollow _)
          · rfl
      · rfl
  | lastLink hwalk hrefuse hshort hfollow hlink =>
      rw [walk_eq_ok_iff.mpr hwalk]
      simp only [hrefuse, Bool.false_eq_true, if_false, if_neg (Nat.not_lt.mpr hshort), hlink,
        hfollow, if_true]

theorem halts_of_walkTo_eq {purpose : Purpose} {dir : Location} {steps : List String}
    {slash : Bool} {halt : Halt} (h : tree.walkTo purpose dir steps slash = .ok halt) :
    Halts tree purpose dir steps slash halt := by
  unfold walkTo at h
  cases hwalk : tree.walk dir steps with
  | error error => simp [hwalk] at h
  | ok found =>
      have hwalks := walk_eq_ok_iff.mp hwalk
      rw [hwalk] at h
      match found with
      | .atLink parent target rest =>
          simp only [Except.ok.injEq] at h
          exact h ▸ .atLink hwalks
      | .arrived (.self place) =>
          simp only [Except.ok.injEq] at h
          exact h ▸ .self hwalks
      | .arrived (.child parent name) =>
          simp only at h
          by_cases hrefuse : purpose.refuses slash
          · rw [if_pos hrefuse] at h
            exact absurd h (by simp)
          · rw [if_neg hrefuse] at h
            have hrefuse := Bool.eq_false_iff.mpr hrefuse
            by_cases hlong : maxNameBytes < name.utf8ByteSize
            · rw [if_pos hlong] at h
              exact absurd h (by simp)
            · rw [if_neg hlong] at h
              have hshort := Nat.not_lt.mp hlong
              split at h
              · next hlink =>
                  by_cases hfollow : purpose.follows slash
                  · rw [if_pos hfollow] at h
                    simp only [Except.ok.injEq] at h
                    exact h ▸ .lastLink hwalks hrefuse hshort hfollow hlink
                  · rw [if_neg hfollow] at h
                    simp only [Except.ok.injEq] at h
                    exact h ▸ .child hwalks hrefuse hshort fun hf => absurd hf hfollow
              · next hother =>
                  simp only [Except.ok.injEq] at h
                  exact h ▸ .child hwalks hrefuse hshort fun _ target => hother target

theorem walkTo_eq_ok_iff {purpose : Purpose} {dir : Location} {steps : List String}
    {slash : Bool} {halt : Halt} :
    tree.walkTo purpose dir steps slash = .ok halt ↔ Halts tree purpose dir steps slash halt :=
  ⟨halts_of_walkTo_eq, Halts.walkTo_eq⟩

theorem Leads.locate_eq {purpose : Purpose} {links : Nat} {dir : Location}
    {steps : List String} {slash : Bool} {found : Spot × Bool}
    (h : Leads tree purpose links dir steps slash found) :
    tree.locate purpose links dir steps slash = .ok found := by
  induction h with
  | arrive hhalt =>
      unfold locate
      rw [walkTo_eq_ok_iff.mpr hhalt]
  | follow hhalt htarget _ ih =>
      unfold locate
      rw [walkTo_eq_ok_iff.mpr hhalt]
      simp only [if_neg htarget]
      exact ih

theorem leads_of_locate_eq {purpose : Purpose} {links : Nat} {dir : Location}
    {steps : List String} {slash : Bool} {found : Spot × Bool}
    (h : tree.locate purpose links dir steps slash = .ok found) :
    Leads tree purpose links dir steps slash found := by
  fun_induction locate tree purpose links dir steps slash with
  | case1 | case3 | case4 => exact absurd h (by simp)
  | case2 links dir steps slash spot hhalt =>
      exact Except.ok.inj h ▸ .arrive (walkTo_eq_ok_iff.mp hhalt)
  | case5 dir steps slash parent target rest hhalt links path htarget ih =>
      exact .follow (walkTo_eq_ok_iff.mp hhalt) htarget (ih h)

theorem locate_eq_ok_iff {purpose : Purpose} {links : Nat} {dir : Location}
    {steps : List String} {slash : Bool} {found : Spot × Bool} :
    tree.locate purpose links dir steps slash = .ok found ↔
      Leads tree purpose links dir steps slash found :=
  ⟨leads_of_locate_eq, Leads.locate_eq⟩

theorem resolve_eq_ok_iff {purpose : Purpose} {path : FilePath} {found : Spot × Bool} :
    tree.resolve purpose path = .ok found ↔
      IsSearchable path ∧ Leads tree purpose maxLinks (if path.isAbsolute then [] else tree.workDir)
        path.steps path.endsWithSlash found := by
  unfold resolve
  constructor
  · intro h
    by_cases hnul : '\x00' ∈ path.text.toList
    · rw [if_pos hnul] at h
      exact absurd h (by simp)
    · rw [if_neg hnul] at h
      by_cases hempty : path.text = ""
      · rw [if_pos hempty] at h
        exact absurd h (by simp)
      · rw [if_neg hempty] at h
        by_cases hlong : maxPathBytes ≤ path.text.utf8ByteSize
        · rw [if_pos hlong] at h
          exact absurd h (by simp)
        · rw [if_neg hlong] at h
          exact ⟨⟨hnul, hempty, Nat.not_le.mp hlong⟩, locate_eq_ok_iff.mp h⟩
  · rintro ⟨hpath, hlead⟩
    rw [if_neg hpath.no_nul, if_neg hpath.not_empty, if_neg (Nat.not_le.mpr hpath.short)]
    exact locate_eq_ok_iff.mpr hlead

/-! ## Where a path leads -/

theorem Halts.walks {purpose : Purpose} {dir : Location} {steps : List String} {slash : Bool}
    {halt : Halt} (h : Halts tree purpose dir steps slash halt) :
    ∃ first, Walks tree dir steps first := by
  cases h with
  | atLink hwalk => exact ⟨_, hwalk⟩
  | self hwalk => exact ⟨_, hwalk⟩
  | child hwalk _ _ _ => exact ⟨_, hwalk⟩
  | lastLink hwalk _ _ _ _ => exact ⟨_, hwalk⟩

theorem Leads.walks {purpose : Purpose} {links : Nat} {dir : Location} {steps : List String}
    {slash : Bool} {found : Spot × Bool} (h : Leads tree purpose links dir steps slash found) :
    ∃ first, Walks tree dir steps first := by
  cases h with
  | arrive hhalt => exact hhalt.walks
  | follow hhalt _ _ => exact hhalt.walks

/-- After a walk that comes to a name which is no link, nothing else can be found. -/
theorem Leads.of_walks_child {purpose : Purpose} {links : Nat} {dir parent : Location}
    {name : String} {steps : List String} {slash : Bool} {found : Spot × Bool}
    (hwalk : Walks tree dir steps (.arrived (.child parent name)))
    (hlink : ∀ target, tree.entryAt (parent ++ [name]) ≠ some (.link target))
    (h : Leads tree purpose links dir steps slash found) : found = (.child parent name, slash) := by
  cases h with
  | arrive hhalt =>
      cases hhalt with
      | self hother => exact absurd (hwalk.unique hother) (by simp)
      | child hother _ _ _ => rw [Halt.arrived.inj (hwalk.unique hother)]
  | follow hhalt _ _ =>
      cases hhalt with
      | atLink hother => exact absurd (hwalk.unique hother) (by simp)
      | lastLink hother _ _ _ hentry =>
          cases hwalk.unique hother
          exact absurd hentry (hlink _)

/-- After a walk that halts at a link, the way goes on behind that. -/
theorem Leads.of_walks_link {purpose : Purpose} {links : Nat} {dir parent : Location}
    {target : String} {steps rest : List String} {slash : Bool} {found : Spot × Bool}
    (hwalk : Walks tree dir steps (.atLink parent target rest))
    (h : Leads tree purpose links dir steps slash found) :
    ∃ fewer, links = fewer + 1 ∧
      Leads tree purpose fewer (if (FilePath.mk target).isAbsolute then [] else parent)
        ((FilePath.mk target).steps ++ rest)
        (if rest = [] then slash || (FilePath.mk target).endsWithSlash else slash) found := by
  cases h with
  | arrive hhalt =>
      cases hhalt with
      | self hother => exact absurd (hwalk.unique hother) (by simp)
      | child hother _ _ _ => exact absurd (hwalk.unique hother) (by simp)
  | @follow fewer _ _ _ _ _ _ _ hhalt _ hlead =>
      cases hhalt with
      | lastLink hother _ _ _ _ => exact absurd (hwalk.unique hother) (by simp)
      | atLink hother =>
          cases hwalk.unique hother
          exact ⟨fewer, rfl, hlead⟩

theorem Leads.self_directory {purpose : Purpose} {links : Nat} {dir place : Location}
    {steps : List String} {slash ended : Bool}
    (h : Leads tree purpose links dir steps slash (.self place, ended)) :
    tree.entryAt place = some .directory := by
  generalize hf : (Spot.self place, ended) = found at h
  induction h with
  | arrive hhalt =>
      cases hf
      cases hhalt with
      | self hwalk => exact hwalk.directory_at_end
  | follow _ _ _ ih => exact ih hf

/-- Whatever a path is resolved for, who follows every link sees the same, if it is no link. -/
theorem Leads.seen {purpose : Purpose} {links : Nat} {dir : Location} {steps : List String}
    {slash : Bool} {found : Spot × Bool} (h : Leads tree purpose links dir steps slash found)
    (hlink : ∀ target, tree.entryAt found.1.place ≠ some (.link target)) :
    Leads tree (.see true) links dir steps slash found := by
  induction h with
  | arrive hhalt =>
      cases hhalt with
      | self hwalk => exact .arrive (.self hwalk)
      | child hwalk _ hshort _ => exact .arrive (.child hwalk rfl hshort fun _ => hlink)
  | follow hhalt htarget _ ih =>
      refine .follow ?_ htarget (ih hlink)
      cases hhalt with
      | atLink hwalk => exact .atLink hwalk
      | lastLink hwalk _ hshort _ hentry => exact .lastLink hwalk rfl hshort rfl hentry

theorem Leads.not_link {purpose : Purpose} {links : Nat} {dir : Location}
    {steps : List String} {slash : Bool} {found : Spot × Bool}
    (h : Leads tree purpose links dir steps slash found)
    (hfollows : ∀ slash, purpose.follows slash = true) (target : String) :
    tree.entryAt found.1.place ≠ some (.link target) := by
  induction h with
  | arrive hhalt =>
      cases hhalt with
      | self hwalk =>
          have hdir := hwalk.directory_at_end
          rw [Halt.dir] at hdir
          rw [Spot.place, hdir]
          simp
      | child _ _ _ hlink => exact hlink (hfollows _) target
  | follow _ _ _ ih => exact ih

theorem lookUp_eq_ok_iff {follow : Bool} {path : FilePath} {place : Location} {entry : Entry} :
    tree.lookUp follow path = .ok (place, entry) ↔
      ∃ spot slash, tree.resolve (.see follow) path = .ok (spot, slash) ∧ spot.place = place ∧
        tree.entryAt place = some entry ∧ (entry ≠ .directory → slash = false) := by
  unfold lookUp
  constructor
  · intro h
    cases hr : tree.resolve (.see follow) path with
    | error error => simp [hr] at h
    | ok found =>
        obtain ⟨spot, slash⟩ := found
        rw [hr] at h
        refine ⟨spot, slash, rfl, ?_⟩
        cases spot with
        | self dir =>
            simp only [Except.ok.injEq, Prod.mk.injEq] at h
            obtain ⟨rfl, rfl⟩ := h
            exact ⟨rfl, (resolve_eq_ok_iff.mp hr).2.self_directory, by simp⟩
        | child dir name =>
            simp only at h
            split at h
            · exact absurd h (by simp)
            · next he =>
                simp only [Except.ok.injEq, Prod.mk.injEq] at h
                obtain ⟨rfl, rfl⟩ := h
                exact ⟨rfl, he, by simp⟩
            · next other _ he =>
                by_cases hslash : slash = true
                · rw [if_pos hslash] at h
                  exact absurd h (by simp)
                · rw [if_neg hslash] at h
                  simp only [Except.ok.injEq, Prod.mk.injEq] at h
                  obtain ⟨rfl, rfl⟩ := h
                  exact ⟨rfl, he, fun _ => Bool.eq_false_iff.mpr hslash⟩
  · rintro ⟨spot, slash, hr, rfl, he, hslash⟩
    rw [hr]
    cases spot with
    | self dir =>
        have hdir := (resolve_eq_ok_iff.mp hr).2.self_directory
        rw [Spot.place, hdir] at he
        cases he
        rfl
    | child dir name =>
        rw [Spot.place] at he
        simp only [he]
        cases entry with
        | directory => rfl
        | file content => simp [hslash (by simp), Spot.place]
        | link target => simp [hslash (by simp), Spot.place]

theorem entryAt_of_lookUp {follow : Bool} {path : FilePath} {place : Location} {entry : Entry}
    (h : tree.lookUp follow path = .ok (place, entry)) : tree.entryAt place = some entry := by
  obtain ⟨_, _, _, _, hentry, _⟩ := lookUp_eq_ok_iff.mp h
  exact hentry

theorem lookUp_true_not_link {path : FilePath} {place : Location} {entry : Entry}
    (h : tree.lookUp true path = .ok (place, entry)) (target : String) :
    entry ≠ .link target := by
  obtain ⟨spot, slash, hr, rfl, he, _⟩ := lookUp_eq_ok_iff.mp h
  rintro rfl
  exact (resolve_eq_ok_iff.mp hr).2.not_link (fun _ => rfl) target he

/-- The regular file that a path leads to, and what it holds. -/
def fileOf? (tree : FileTree) (path : FilePath) : Option (Location × Bytes) :=
  match tree.lookUp true path with
  | .ok (place, .file content) => some (place, content)
  | _ => none

theorem fileOf?_eq_some_iff {path : FilePath} {place : Location} {content : Bytes} :
    tree.fileOf? path = some (place, content) ↔
      tree.lookUp true path = .ok (place, .file content) := by
  unfold fileOf?
  split
  · next other found h => simp [h]
  · next hother =>
      refine ⟨fun h => absurd h (by simp), fun h => ?_⟩
      exact absurd h (hother place content)

end FileTree

end MediaMigration
