import Mathlib.Data.List.Forall2
import MediaMigration.Proofs.ResourceName.LegalName
import MediaMigration.Text.Hexadecimal

/-!
# Texts that differ in single characters

Two texts are aligned if they have the same characters at the same places, but for places where
both have a hexadecimal digit or both have a small sigma. The steps that make a name of a text
merge many texts, yet no two aligned ones: whatever a step drops or changes is the same character in
both. Sigmas are among the variants since lower-casing chooses their form by the neighbours,
and these may differ.
-/

namespace MediaMigration

namespace ResourceName

/-- What may stand in one of two aligned texts where the other has something else. -/
def variants : List Char :=
  Text.hexDigits ++ ['σ', 'ς']

/-- The same character, or two variants. -/
def Alike (c d : Char) : Prop :=
  c = d ∨ (c ∈ variants ∧ d ∈ variants)

def Aligned (text other : List Char) : Prop :=
  List.Forall₂ Alike text other

/-- A step from text to text that keeps aligned texts aligned, and does not merge them. -/
structure KeepsApart (step : List Char → List Char) : Prop where
  aligned : ∀ {text other}, Aligned text other → Aligned (step text) (step other)
  injective : ∀ {text other}, Aligned text other → step text = step other → text = other

variable {c d : Char} {text other : List Char}

theorem Alike.refl (c : Char) : Alike c c :=
  .inl rfl

theorem Aligned.refl (text : List Char) : Aligned text text :=
  List.forall₂_same.mpr fun c _ => Alike.refl c

theorem Aligned.append {more others : List Char} (h : Aligned text other)
    (hmore : Aligned more others) : Aligned (text ++ more) (other ++ others) :=
  List.rel_append h hmore

theorem Aligned.append_inj {more others : List Char} (h : Aligned text other)
    (hsame : text ++ more = other ++ others) : text = other ∧ more = others :=
  List.append_inj hsame h.length_eq

/-! ## What no variant is -/

/-- Nothing that is done to a name changes a variant or drops it. -/
theorem spec_of_mem_variants : ∀ v ∈ variants, Unicode.IsSettled v ∧
    Unicode.isAlphanumeric v = true ∧ (!isParenthesis v) = true ∧ isHyphen v = false ∧
      separatorToHyphen v = v := by
  unfold Unicode.IsSettled
  exact forall_mem_of_all (by decide +kernel)

theorem isSettled_of_mem_variants : ∀ v ∈ variants, Unicode.IsSettled v :=
  fun v hv => (spec_of_mem_variants v hv).1

theorem isAlphanumeric_of_mem_variants : ∀ v ∈ variants, Unicode.isAlphanumeric v = true :=
  fun v hv => (spec_of_mem_variants v hv).2.1

theorem not_isParenthesis_of_mem_variants : ∀ v ∈ variants, (!isParenthesis v) = true :=
  fun v hv => (spec_of_mem_variants v hv).2.2.1

theorem not_isHyphen_of_mem_variants : ∀ v ∈ variants, isHyphen v = false :=
  fun v hv => (spec_of_mem_variants v hv).2.2.2.1

theorem separatorToHyphen_of_mem_variants : ∀ v ∈ variants, separatorToHyphen v = v :=
  fun v hv => (spec_of_mem_variants v hv).2.2.2.2

/-- A test that comes out alike for all variants does not tell aligned characters apart. -/
theorem Alike.test_eq {test : Char → Bool} {answer : Bool} (htest : ∀ v ∈ variants, test v = answer)
    (h : Alike c d) : test c = test d := by
  rcases h with rfl | ⟨hc, hd⟩
  · rfl
  · rw [htest c hc, htest d hd]

theorem Alike.eq_of_test {test : Char → Bool} {answer : Bool}
    (htest : ∀ v ∈ variants, test v = answer) (h : Alike c d) (hc : test c ≠ answer) : c = d := by
  rcases h with rfl | ⟨hvariant, _⟩
  · rfl
  · exact absurd (htest c hvariant) hc

theorem Alike.eq_iff_of_not_variant {mark : Char} (hmark : mark ∉ variants) (h : Alike c d) :
    c = mark ↔ d = mark := by
  rcases h with rfl | ⟨hc, hd⟩
  · exact Iff.rfl
  · refine iff_of_false ?_ ?_
    · rintro rfl
      exact hmark hc
    · rintro rfl
      exact hmark hd

theorem Aligned.head?_eq_hyphen_iff (h : Aligned text other) :
    text.head? = some '-' ↔ other.head? = some '-' := by
  cases h with
  | nil => exact Iff.rfl
  | cons halike _ => simpa using halike.eq_iff_of_not_variant (by decide)

/-! ## Steps that keep aligned texts apart -/

namespace KeepsApart

theorem comp {first second : List Char → List Char} (hsecond : KeepsApart second)
    (hfirst : KeepsApart first) : KeepsApart fun text => second (first text) where
  aligned h := hsecond.aligned (hfirst.aligned h)
  injective h hsame := hfirst.injective h (hsecond.injective (hfirst.aligned h) hsame)

theorem of_both {step : List Char → List Char}
    (h : ∀ {text other}, Aligned text other →
      Aligned (step text) (step other) ∧ (step text = step other → text = other)) :
    KeepsApart step where
  aligned halign := (h halign).1
  injective halign := (h halign).2

theorem filter {test : Char → Bool} (htest : ∀ v ∈ variants, test v = true) :
    KeepsApart (List.filter test) := by
  refine of_both fun h => ?_
  induction h with
  | nil => exact ⟨.nil, fun _ => rfl⟩
  | @cons c d _ _ halike _ ih =>
      have hsame := halike.test_eq htest
      cases hc : test c with
      | true =>
          rw [List.filter_cons_of_pos hc, List.filter_cons_of_pos (hsame ▸ hc)]
          refine ⟨.cons halike ih.1, fun heq => ?_⟩
          rw [(List.cons.inj heq).1, ih.2 (List.cons.inj heq).2]
      | false =>
          have hd : ¬ test d = true := by simp [← hsame, hc]
          rw [List.filter_cons_of_neg (by simp [hc]), List.filter_cons_of_neg hd]
          refine ⟨ih.1, fun heq => ?_⟩
          rw [halike.eq_of_test htest (by simp [hc]), ih.2 heq]

theorem map {change : Char → Char} (hchange : ∀ v ∈ variants, change v = v) :
    KeepsApart (List.map change) := by
  refine of_both fun h => ?_
  induction h with
  | nil => exact ⟨.nil, fun _ => rfl⟩
  | @cons c d _ _ halike _ ih =>
      have hform : Alike (change c) (change d) ∧ (change c = change d → c = d) := by
        rcases halike with rfl | ⟨hc, hd⟩
        · exact ⟨Alike.refl _, fun _ => rfl⟩
        · rw [hchange c hc, hchange d hd]
          exact ⟨.inr ⟨hc, hd⟩, id⟩
      rw [List.map_cons, List.map_cons]
      refine ⟨.cons hform.1 ih.1, fun heq => ?_⟩
      rw [hform.2 (List.cons.inj heq).1, ih.2 (List.cons.inj heq).2]

theorem dropWhile {test : Char → Bool} (htest : ∀ v ∈ variants, test v = false) :
    KeepsApart (List.dropWhile test) := by
  refine of_both fun h => ?_
  induction h with
  | nil => exact ⟨.nil, fun _ => rfl⟩
  | @cons c d _ _ halike hrest ih =>
      have hsame := halike.test_eq htest
      cases hc : test c with
      | true =>
          rw [List.dropWhile_cons_of_pos hc, List.dropWhile_cons_of_pos (hsame ▸ hc)]
          refine ⟨ih.1, fun heq => ?_⟩
          rw [halike.eq_of_test htest (by simp [hc]), ih.2 heq]
      | false =>
          have hd : ¬ test d = true := by simp [← hsame, hc]
          rw [List.dropWhile_cons_of_neg (by simp [hc]), List.dropWhile_cons_of_neg hd]
          exact ⟨.cons halike hrest, id⟩

theorem reverse : KeepsApart List.reverse where
  aligned h := List.rel_reverse h
  injective _ heq := List.reverse_injective heq

/-! ### Lower case -/

/-- Whatever stands around them: lower-casing gives two alike characters aligned forms, and the
same form only to the same character. -/
theorem lowercaseBetween_alike (h : Alike c d) (before after otherBefore otherAfter : List Char) :
    Aligned (Unicode.lowercaseBetween before c after)
        (Unicode.lowercaseBetween otherBefore d otherAfter) ∧
      (Unicode.lowercaseBetween before c after =
        Unicode.lowercaseBetween otherBefore d otherAfter → c = d) := by
  rcases h with rfl | ⟨hc, hd⟩
  · refine ⟨?_, fun _ => rfl⟩
    unfold Unicode.lowercaseBetween
    by_cases hsigma : c = 'Σ'
    · have hform : ∀ ends : Bool, (if ends = true then 'ς' else 'σ') ∈ variants := by
        decide +kernel
      rw [if_pos hsigma, if_pos hsigma]
      exact .cons (.inr ⟨hform _, hform _⟩) .nil
    · rw [if_neg hsigma, if_neg hsigma]
      exact Aligned.refl _
  · obtain ⟨hcsigma, hcself⟩ := isSettled_of_mem_variants c hc
    obtain ⟨hdsigma, hdself⟩ := isSettled_of_mem_variants d hd
    rw [Unicode.lowercaseBetween, Unicode.lowercaseBetween, if_neg hcsigma, if_neg hdsigma, hcself,
      hdself]
    exact ⟨.cons (.inr ⟨hc, hd⟩) .nil, fun heq => (List.cons.inj heq).1⟩

theorem lowercaseFrom_aligned (h : Aligned text other) (before otherBefore : List Char) :
    Aligned (Unicode.lowercaseFrom before text) (Unicode.lowercaseFrom otherBefore other) ∧
      (Unicode.lowercaseFrom before text = Unicode.lowercaseFrom otherBefore other →
        text = other) := by
  induction h generalizing before otherBefore with
  | nil => exact ⟨.nil, fun _ => rfl⟩
  | @cons c d rest otherRest halike _ ih =>
      obtain ⟨hform, hself⟩ :=
        lowercaseBetween_alike halike before rest otherBefore otherRest
      obtain ⟨hrest, hinjective⟩ := ih (c :: before) (d :: otherBefore)
      refine ⟨hform.append hrest, fun heq => ?_⟩
      obtain ⟨hhead, htail⟩ := hform.append_inj heq
      rw [hself hhead, hinjective htail]

theorem lowercase : KeepsApart Unicode.lowercase :=
  of_both fun h => lowercaseFrom_aligned h [] []

/-! ### The steps of a name -/

theorem normalize : KeepsApart normalize :=
  lowercase.comp
    ((map separatorToHyphen_of_mem_variants).comp (filter not_isParenthesis_of_mem_variants))

theorem dropTrailingHyphens : KeepsApart dropTrailingHyphens :=
  reverse.comp ((dropWhile not_isHyphen_of_mem_variants).comp reverse)

theorem trimHyphens : KeepsApart trimHyphens :=
  dropTrailingHyphens.comp (dropWhile not_isHyphen_of_mem_variants)

theorem collapseHyphens : KeepsApart collapseHyphens := by
  refine of_both fun h => ?_
  induction h with
  | nil => exact ⟨.nil, fun _ => rfl⟩
  | @cons c d rest otherRest halike hrest ih =>
      have hboth : (c = '-' ∧ rest.head? = some '-') ↔ (d = '-' ∧ otherRest.head? = some '-') :=
        and_congr (halike.eq_iff_of_not_variant (by decide)) (Aligned.head?_eq_hyphen_iff hrest)
      rw [ResourceName.collapseHyphens, ResourceName.collapseHyphens]
      by_cases hc : c = '-' ∧ rest.head? = some '-'
      · rw [if_pos hc, if_pos (hboth.mp hc)]
        refine ⟨ih.1, fun heq => ?_⟩
        rw [hc.1, (hboth.mp hc).1, ih.2 heq]
      · rw [if_neg hc, if_neg (mt hboth.mpr hc)]
        refine ⟨.cons halike ih.1, fun heq => ?_⟩
        rw [(List.cons.inj heq).1, ih.2 (List.cons.inj heq).2]

theorem startsAlphanumeric_eq (h : Aligned text other) :
    startsAlphanumeric text = startsAlphanumeric other := by
  cases h with
  | nil => rfl
  | cons halike _ => exact halike.test_eq isAlphanumeric_of_mem_variants

theorem ensureStart : KeepsApart ensureStart := by
  refine of_both fun h => ?_
  rw [ResourceName.ensureStart, ResourceName.ensureStart, ← startsAlphanumeric_eq h]
  split
  · exact ⟨h, id⟩
  · exact ⟨.cons (Alike.refl _) h, fun heq => (List.cons.inj heq).2⟩

theorem pad : KeepsApart pad where
  aligned {text other} h := by
    rw [ResourceName.pad, ResourceName.pad, h.length_eq]
    exact h.append (Aligned.refl _)
  injective h heq := (h.append_inj heq).1

end KeepsApart

/-! ## Names that are not cut -/

def beforeCut (text : List Char) : List Char :=
  ensureStart (collapseHyphens (trimHyphens (normalize text)))

def IsCut (text : List Char) : Prop :=
  maxLength < (beforeCut text).length

instance (text : List Char) : Decidable (IsCut text) :=
  inferInstanceAs (Decidable (_ < _))

theorem KeepsApart.beforeCut : KeepsApart beforeCut :=
  ensureStart.comp (collapseHyphens.comp (trimHyphens.comp normalize))

theorem sanitizeChars_of_not_isCut (h : ¬ IsCut text) :
    sanitizeChars text = pad (dropTrailingHyphens (beforeCut text)) := by
  rw [sanitizeChars, ← beforeCut, List.take_of_length_le (Nat.le_of_not_lt h)]

/-- Names of aligned texts are aligned, and different if the texts are. -/
theorem sanitizeChars_aligned (h : Aligned text other) (hcut : ¬ IsCut text)
    (hother : ¬ IsCut other) :
    Aligned (sanitizeChars text) (sanitizeChars other) ∧
      (sanitizeChars text = sanitizeChars other → text = other) := by
  have hsteps := KeepsApart.pad.comp (KeepsApart.dropTrailingHyphens.comp KeepsApart.beforeCut)
  rw [sanitizeChars_of_not_isCut hcut, sanitizeChars_of_not_isCut hother]
  exact ⟨hsteps.aligned h, hsteps.injective h⟩

end ResourceName

end MediaMigration
