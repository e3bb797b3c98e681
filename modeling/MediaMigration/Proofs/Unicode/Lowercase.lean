import MediaMigration.Unicode.Lowercase

/-!
# Lower-casing settles a text

No lower-case form has a lower-case form other than itself, so a second lower-casing changes
nothing. For the rows of the table this is a comparison of each run with each other: the
images of one miss the letters of the other, because they lie elsewhere or fall between the
letters of an alternating run. No image is a character below the small letters, so hyphens,
slashes and separators come out of lower-casing only where they went in. A sigma is the one
letter whose form depends on its neighbours, and only on those up to the end of its word, so
a text can be put in lower case part by part between slashes.
-/

namespace MediaMigration

namespace Unicode

/-! ## The images of the table -/

namespace CaseRun

def lastImage (run : CaseRun) : Nat :=
  run.image + (run.last - run.first)

/-- The images of a run miss the letters of another: they lie before or behind them, or
they fall between the letters of an alternating run. -/
def misses (run other : CaseRun) : Bool :=
  run.lastImage < other.first || other.last < run.image ||
    (other.step == 2 && (run.step == 2 || run.first == run.last) &&
      (run.image + other.first) % 2 == 1)

def imagesInRange (run : CaseRun) : Bool :=
  0x61 ≤ run.image && (run.lastImage < 0x130 || 0x130 < run.image) &&
    (run.lastImage < 0xD800 || (0xDFFF < run.image && run.lastImage < 0x110000))

theorem bounds_of_holds {run : CaseRun} {code : Nat} (h : run.holds code = true) :
    run.first ≤ code ∧ code ≤ run.last ∧ (code - run.first) % run.step = 0 := by
  simp only [holds, Bool.and_eq_true, decide_eq_true_eq, beq_iff_eq] at h
  exact ⟨h.1.1, h.1.2, h.2⟩

theorem not_holds_image {run other : CaseRun} (hmiss : run.misses other = true) {code : Nat}
    (h : run.holds code = true) : other.holds (run.image + (code - run.first)) = false := by
  obtain ⟨hfirst, hlast, hstep⟩ := bounds_of_holds h
  refine Bool.eq_false_iff.mpr fun hother => ?_
  obtain ⟨hofirst, holast, hostep⟩ := bounds_of_holds hother
  simp only [misses, Bool.or_eq_true, Bool.and_eq_true, decide_eq_true_eq, beq_iff_eq] at hmiss
  unfold lastImage at hmiss
  rcases hmiss with (hbefore | hbehind) | ⟨⟨htwo, hrun⟩, hparity⟩
  · omega
  · omega
  · rw [htwo] at hostep
    have heven : (code - run.first) % 2 = 0 := by
      rcases hrun with hrun | hrun
      · rwa [hrun] at hstep
      · omega
    omega

end CaseRun

theorem lowercaseRuns_miss :
    (lowercaseRuns.all fun run => lowercaseRuns.all run.misses) = true := by
  decide +kernel

theorem lowercaseRuns_imagesInRange : lowercaseRuns.all CaseRun.imagesInRange = true := by
  decide +kernel

/-! ## Settled characters -/

/-- A character that lower-casing leaves as it is, wherever it stands. -/
def IsSettled (c : Char) : Prop :=
  c ≠ 'Σ' ∧ lowercaseChar c = [c]

theorem toNat_ofNat {code : Nat} (h : code.isValidChar) : (Char.ofNat code).toNat = code := by
  rw [Char.ofNat, dif_pos h]
  rfl

theorem image_spec {run : CaseRun} (hrun : run ∈ lowercaseRuns) {code : Nat}
    (h : run.holds code = true) :
    (Char.ofNat (run.image + (code - run.first))).toNat = run.image + (code - run.first) ∧
      0x61 ≤ run.image + (code - run.first) ∧ run.image + (code - run.first) ≠ 0x130 := by
  obtain ⟨hfirst, hlast, -⟩ := CaseRun.bounds_of_holds h
  have hrange := List.all_eq_true.mp lowercaseRuns_imagesInRange run hrun
  simp only [CaseRun.imagesInRange, Bool.and_eq_true, Bool.or_eq_true, decide_eq_true_eq] at hrange
  unfold CaseRun.lastImage at hrange
  obtain ⟨⟨hlow, hdot⟩, hvalid⟩ := hrange
  refine ⟨toNat_ofNat ?_, by omega, by omega⟩
  unfold Nat.isValidChar
  omega

theorem isSettled_of_not_holds {c : Char} (hdot : c.toNat ≠ 0x130)
    (h : ∀ run ∈ lowercaseRuns, run.holds c.toNat = false) : IsSettled c := by
  refine ⟨?_, ?_⟩
  · rintro rfl
    have hsigma : (lowercaseRuns.any fun run => run.holds 'Σ'.toNat) = true := by decide
    obtain ⟨run, hrun, hholds⟩ := List.any_eq_true.mp hsigma
    rw [h run hrun] at hholds
    exact absurd hholds (by decide)
  · have hne : c ≠ '\u0130' := by
      rintro rfl
      exact hdot rfl
    have hnone : (lowercaseRuns.find? fun run => run.holds c.toNat) = none := by
      refine List.find?_eq_none.mpr fun run hrun => ?_
      simp [h run hrun]
    simp [lowercaseChar, hne, hnone]

/-- The lower-case form of a character is settled, and a character below the small letters
is only the form of itself. -/
theorem lowercaseChar_spec {c d : Char} (hc : c ≠ 'Σ') (h : d ∈ lowercaseChar c) :
    IsSettled d ∧ (d.toNat < 0x61 → d = c) := by
  unfold lowercaseChar at h
  split at h
  · simp only [List.mem_cons, List.not_mem_nil, or_false] at h
    rcases h with rfl | rfl
    · exact ⟨⟨by decide, by decide⟩, fun hlow => absurd hlow (by decide)⟩
    · exact ⟨⟨by decide, by decide⟩, fun hlow => absurd hlow (by decide)⟩
  · next hdot =>
      cases hfind : lowercaseRuns.find? fun run => run.holds c.toNat with
      | none =>
          rw [hfind] at h
          obtain rfl := List.mem_singleton.mp h
          exact ⟨⟨hc, by simp [lowercaseChar, hdot, hfind]⟩, fun _ => rfl⟩
      | some run =>
          rw [hfind] at h
          obtain rfl := List.mem_singleton.mp h
          have hrun := List.mem_of_find?_eq_some hfind
          have hholds : run.holds c.toNat = true := by simpa using List.find?_some hfind
          obtain ⟨hcode, hlow, hne⟩ := image_spec hrun hholds
          refine ⟨isSettled_of_not_holds (by rwa [hcode]) fun other hother => ?_, fun hlt => ?_⟩
          · rw [hcode]
            exact CaseRun.not_holds_image
              (List.all_eq_true.mp (List.all_eq_true.mp lowercaseRuns_miss run hrun) other hother)
              hholds
          · rw [hcode] at hlt
            omega

theorem lowercaseBetween_spec {before after : List Char} {c d : Char}
    (h : d ∈ lowercaseBetween before c after) :
    IsSettled d ∧ (d.toNat < 0x61 → d = c) := by
  unfold lowercaseBetween at h
  split at h
  · obtain rfl := List.mem_singleton.mp h
    split
    · exact ⟨⟨by decide, by decide⟩, fun hlow => absurd hlow (by decide)⟩
    · exact ⟨⟨by decide, by decide⟩, fun hlow => absurd hlow (by decide)⟩
  · next hc => exact lowercaseChar_spec hc h

/-! ## Texts -/

theorem lowercaseFrom_spec {before text : List Char} {d : Char}
    (h : d ∈ lowercaseFrom before text) : IsSettled d ∧ (d.toNat < 0x61 → d ∈ text) := by
  induction text generalizing before with
  | nil => simp [lowercaseFrom] at h
  | cons c rest ih =>
      rcases List.mem_append.mp h with h | h
      · obtain ⟨hsettled, hself⟩ := lowercaseBetween_spec h
        exact ⟨hsettled, fun hlow => by simp [hself hlow]⟩
      · obtain ⟨hsettled, hmem⟩ := ih h
        exact ⟨hsettled, fun hlow => List.mem_cons_of_mem _ (hmem hlow)⟩

theorem isSettled_of_mem_lowercase {text : List Char} {d : Char} (h : d ∈ lowercase text) :
    IsSettled d :=
  (lowercaseFrom_spec h).1

theorem mem_of_mem_lowercase {text : List Char} {d : Char} (h : d ∈ lowercase text)
    (hlow : d.toNat < 0x61) : d ∈ text :=
  (lowercaseFrom_spec h).2 hlow

/-- The lower-case form of a text between its neighbours. -/
def lowercaseWithin (before : List Char) : List Char → List Char → List Char
  | [], _ => []
  | c :: rest, after =>
      lowercaseBetween before c (rest ++ after) ++ lowercaseWithin (c :: before) rest after

theorem lowercaseFrom_eq_lowercaseWithin (before text : List Char) :
    lowercaseFrom before text = lowercaseWithin before text [] := by
  induction text generalizing before with
  | nil => rfl
  | cons c rest ih => rw [lowercaseFrom, lowercaseWithin, ih, List.append_nil]

theorem lowercaseWithin_of_isSettled {text : List Char} (h : ∀ c ∈ text, IsSettled c)
    (before after : List Char) : lowercaseWithin before text after = text := by
  induction text generalizing before with
  | nil => rfl
  | cons c rest ih =>
      obtain ⟨hsigma, hself⟩ := h c List.mem_cons_self
      have hrest := ih (fun d hd => h d (List.mem_cons_of_mem _ hd)) (c :: before)
      rw [lowercaseWithin, hrest, lowercaseBetween, if_neg hsigma, hself, List.singleton_append]

theorem lowercase_of_isSettled {text : List Char} (h : ∀ c ∈ text, IsSettled c) :
    lowercase text = text := by
  rw [lowercase, lowercaseFrom_eq_lowercaseWithin, lowercaseWithin_of_isSettled h]

/-! ## Texts in parts -/

/-- A text is put in lower case part by part, each part between its neighbours. -/
theorem lowercaseWithin_append (before text more after : List Char) :
    lowercaseWithin before (text ++ more) after =
      lowercaseWithin before text (more ++ after) ++
        lowercaseWithin (text.reverse ++ before) more after := by
  induction text generalizing before with
  | nil => rfl
  | cons c rest ih =>
      rw [List.cons_append, lowercaseWithin, lowercaseWithin, ih, List.append_assoc,
        List.append_assoc, List.reverse_cons, List.append_assoc, List.singleton_append]

/-- Only a capital sigma looks at its neighbours. -/
theorem lowercaseWithin_of_no_sigma {text : List Char} (h : 'Σ' ∉ text)
    (before after otherBefore otherAfter : List Char) :
    lowercaseWithin before text after = lowercaseWithin otherBefore text otherAfter := by
  induction text generalizing before otherBefore with
  | nil => rfl
  | cons c rest ih =>
      have hsigma : c ≠ 'Σ' := fun hc => h (hc ▸ List.mem_cons_self)
      have hrest : 'Σ' ∉ rest := fun hmem => h (List.mem_cons_of_mem _ hmem)
      rw [lowercaseWithin, lowercaseWithin, ih hrest (c :: before) (c :: otherBefore),
        lowercaseBetween, lowercaseBetween, if_neg hsigma, if_neg hsigma]

/-- Of what follows, a capital sigma sees no more than whether the first character that is not
looked through is a cased one. -/
theorem lowercaseWithin_congr {c d : Char} (hc : isCaseIgnorable c = false)
    (hd : isCaseIgnorable d = false) (hcased : isCased c = isCased d)
    (before text behind otherBehind : List Char) :
    lowercaseWithin before text (c :: behind) = lowercaseWithin before text (d :: otherBehind) := by
  have hreaches : ∀ near : List Char,
      reachesCased (near ++ c :: behind) = reachesCased (near ++ d :: otherBehind) := by
    intro near
    rw [reachesCased, reachesCased, List.dropWhile_append, List.dropWhile_append,
      List.dropWhile_cons_of_neg (by simp [hc]), List.dropWhile_cons_of_neg (by simp [hd])]
    cases near.dropWhile isCaseIgnorable with
    | nil => exact hcased
    | cons first rest => rfl
  induction text generalizing before with
  | nil => rfl
  | cons first rest ih =>
      rw [lowercaseWithin, lowercaseWithin, ih, lowercaseBetween, lowercaseBetween, endsWord,
        endsWord, hreaches]

theorem exists_of_mem_lowercaseFrom {before text : List Char} {d : Char}
    (h : d ∈ lowercaseFrom before text) : ∃ c ∈ text, c = 'Σ' ∨ d ∈ lowercaseChar c := by
  induction text generalizing before with
  | nil => simp [lowercaseFrom] at h
  | cons c rest ih =>
      rcases List.mem_append.mp h with h | h
      · refine ⟨c, List.mem_cons_self, ?_⟩
        unfold lowercaseBetween at h
        split at h
        · next hsigma => exact .inl hsigma
        · exact .inr h
      · obtain ⟨source, hmem, hform⟩ := ih h
        exact ⟨source, List.mem_cons_of_mem _ hmem, hform⟩

/-- A character that no word goes across: it is neither a letter with a case, nor looked
through when such a letter is sought. -/
def EndsWords (c : Char) : Prop :=
  isCased c = false ∧ isCaseIgnorable c = false

variable {stop : Char}

theorem reachesCased_append (hstop : EndsWords stop) (near far : List Char) :
    reachesCased (near ++ stop :: far) = reachesCased near := by
  rw [reachesCased, reachesCased, List.dropWhile_append,
    List.dropWhile_cons_of_neg (by simp [hstop.2])]
  cases near.dropWhile isCaseIgnorable with
  | nil => exact hstop.1
  | cons c rest => rfl

/-- The form of a character does not depend on what lies behind the end of its word. -/
theorem lowercaseBetween_stop_behind (hstop : EndsWords stop) (before : List Char) (c : Char)
    (after far : List Char) :
    lowercaseBetween before c (after ++ stop :: far) = lowercaseBetween before c after := by
  rw [lowercaseBetween, lowercaseBetween, endsWord, endsWord, reachesCased_append hstop]

theorem lowercaseBetween_stop_in_front (hstop : EndsWords stop) (before far : List Char) (c : Char)
    (after : List Char) :
    lowercaseBetween (before ++ stop :: far) c after = lowercaseBetween before c after := by
  rw [lowercaseBetween, lowercaseBetween, endsWord, endsWord, reachesCased_append hstop]

theorem lowercaseFrom_stop_in_front (hstop : EndsWords stop) (before far text : List Char) :
    lowercaseFrom (before ++ stop :: far) text = lowercaseFrom before text := by
  induction text generalizing before with
  | nil => rfl
  | cons c rest ih =>
      rw [lowercaseFrom, lowercaseFrom, lowercaseBetween_stop_in_front hstop, ← ih (c :: before)]
      rfl

theorem lowercaseFrom_append (hstop : EndsWords stop) (before text rest : List Char) :
    lowercaseFrom before (text ++ stop :: rest) =
      lowercaseFrom before text ++ (lowercaseChar stop ++ lowercase rest) := by
  induction text generalizing before with
  | nil =>
      have hsigma : stop ≠ 'Σ' := by
        rintro rfl
        exact absurd hstop.1 (by decide +kernel)
      have hself : lowercaseBetween before stop rest = lowercaseChar stop := if_neg hsigma
      have hrest : lowercaseFrom (stop :: before) rest = lowercaseFrom [] rest :=
        lowercaseFrom_stop_in_front hstop [] before rest
      change lowercaseBetween before stop rest ++ lowercaseFrom (stop :: before) rest =
        lowercaseChar stop ++ lowercaseFrom [] rest
      rw [hself, hrest]
  | cons c others ih =>
      rw [List.cons_append, lowercaseFrom, lowercaseFrom, lowercaseBetween_stop_behind hstop, ih,
        List.append_assoc]

@[simp] theorem lowercase_slash (front rest : List Char) :
    lowercase (front ++ '/' :: rest) = lowercase front ++ '/' :: lowercase rest := by
  have hslash : EndsWords '/' := ⟨by decide +kernel, by decide +kernel⟩
  have hself : lowercaseChar '/' = ['/'] := by decide +kernel
  rw [lowercase, lowercaseFrom_append hslash, hself]
  rfl

end Unicode

end MediaMigration
