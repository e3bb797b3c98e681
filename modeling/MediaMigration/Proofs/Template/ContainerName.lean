import MediaMigration.Proofs.ResourceName.LegalContainer
import MediaMigration.Proofs.Template.FilledText

/-!
# Containers of expanded templates

A template and values in ordinary characters make a text in ordinary characters, but for tokens
that stay because there is no value for them. So the container of an expanded template is legal
exactly if the front of this text stands by itself and is not the end of such a token.
-/

namespace MediaMigration

open ResourceName

variable {σ : Type}

theorem isOrdinary_of_isKeyChar {c : Char} (h : Placeholder.isKeyChar c = true) :
    isOrdinary c = true := by
  rcases Bool.or_eq_true_iff.mp h with hletter | hline
  · simp [isOrdinary, hletter]
  · rw [eq_of_beq hline]
    decide

/-! ## Filled templates -/

/-- The characters of a filled row are those of its literal text, of the values and, if a value is
missing, of tokens. -/
theorem Piece.forall_mem_fill {holds : Char → Prop} {pieces : List Piece}
    {values : List (Option String)} (hlength : values.length = (keys pieces).length)
    (hliterals : ∀ c, literal c ∈ pieces → holds c)
    (hvalues : ∀ value, some value ∈ values → ∀ c ∈ value.toList, holds c)
    (hleft : none ∈ values → ∀ key, token key ∈ pieces → ∀ c ∈ (token key).written, holds c) :
    ∀ c ∈ fill pieces values, holds c := by
  induction pieces, values using fill.induct with
  | case1 values => exact fun c hc => absurd hc List.not_mem_nil
  | case2 c rest values ih =>
      refine List.forall_mem_cons.mpr ⟨hliterals c List.mem_cons_self, ih hlength ?_ hvalues ?_⟩
      · exact fun d hd => hliterals d (List.mem_cons_of_mem _ hd)
      · exact fun hnone key hkey => hleft hnone key (List.mem_cons_of_mem _ hkey)
  | case3 key rest value values ih =>
      refine List.forall_mem_append.mpr ⟨hvalues value List.mem_cons_self,
        ih (Nat.succ.inj hlength) ?_ ?_ ?_⟩
      · exact fun d hd => hliterals d (List.mem_cons_of_mem _ hd)
      · exact fun other hmem => hvalues other (List.mem_cons_of_mem _ hmem)
      · exact fun hnone other hmem =>
          hleft (List.mem_cons_of_mem _ hnone) other (List.mem_cons_of_mem _ hmem)
  | case4 key rest values ih =>
      refine List.forall_mem_append.mpr ⟨hleft List.mem_cons_self key List.mem_cons_self,
        ih (Nat.succ.inj hlength) ?_ ?_ ?_⟩
      · exact fun d hd => hliterals d (List.mem_cons_of_mem _ hd)
      · exact fun other hmem => hvalues other (List.mem_cons_of_mem _ hmem)
      · exact fun _ other hmem => hleft List.mem_cons_self other (List.mem_cons_of_mem _ hmem)
  | case5 key rest ih => exact absurd hlength (by simp [keys])

/-- A template whose literal text is in ordinary characters. -/
def HasOrdinaryLiterals (template : String) : Prop :=
  ∀ c, Piece.literal c ∈ Piece.ofText template.toList → isOrdinary c = true

/-- The answers of a source to the keys of a template, asked for from right to left. -/
def Resolver.Fills (resolver : Resolver σ) (template : String) (state : σ)
    (values : List (Option String)) : Prop :=
  ∃ final, resolver.Answers state (Piece.keys (Piece.ofText template.toList)).reverse values final

theorem Resolver.Answers.given {resolver : Resolver σ} {before after : σ} {keys : List String}
    {values : List (Option String)} (h : resolver.Answers before keys values after)
    {value? : Option String} (hvalue : value? ∈ values) :
    ∃ key state next, resolver.resolve key state = (.ok value?, next) := by
  induction h with
  | nil => exact absurd hvalue List.not_mem_nil
  | @cons state next _ key _ _ _ first _ ih =>
      rcases List.mem_cons.mp hvalue with rfl | hrest
      · exact ⟨key, state, next, first⟩
      · exact ih hrest

/-- All values that come into the text are in ordinary characters. -/
def Resolver.GivesOrdinary (resolver : Resolver σ) (template : String) (state : σ) : Prop :=
  ∀ values, resolver.Fills template state values → ∀ value, some value ∈ values →
    ∀ c ∈ value.toList, isOrdinary c = true

/-- There is no value for one of the tokens, and it stays in the text. -/
def Resolver.LeavesToken (resolver : Resolver σ) (template : String) (state : σ) : Prop :=
  ∃ values, resolver.Fills template state values ∧ none ∈ values

theorem mem_written_token {key : List Char} (hkey : ∀ c ∈ key, Placeholder.isKeyChar c = true)
    {c : Char} (h : c ∈ (Piece.token key).written) : isOrdinary c = true ∨ c ∈ tokenMarks := by
  simp only [Piece.written, List.mem_cons, List.mem_append, List.not_mem_nil, or_false] at h
  rcases h with rfl | rfl | hmem | rfl
  · exact .inr (by decide)
  · exact .inr (by decide)
  · exact .inl (isOrdinary_of_isKeyChar (hkey c hmem))
  · exact .inr (by decide)

theorem isOrdinary_of_mem_textOf {template : String} {resolver : Resolver σ} {state : σ}
    (htemplate : HasOrdinaryLiterals template) (hvalues : resolver.GivesOrdinary template state)
    {text : List Char} (h : Expansion.textOf template resolver state = .ok text) :
    ∀ c ∈ text, isOrdinary c = true ∨ c ∈ tokenMarks ∧ resolver.LeavesToken template state := by
  rcases Expansion.textOf_filled_or_failed template resolver state with
    ⟨values, final, hanswers, htext⟩ | ⟨_, _, _, error, _, _, herror⟩
  · have hfills : resolver.Fills template state values := ⟨final, hanswers⟩
    have hlength : values.reverse.length = (Piece.keys (Piece.ofText template.toList)).length := by
      rw [List.length_reverse, hanswers.length_eq, List.length_reverse]
    rw [Except.ok.inj (h.symm.trans htext)]
    refine Piece.forall_mem_fill hlength (fun c hc => .inl (htemplate c hc)) ?_ ?_
    · exact fun value hvalue c hc =>
        .inl (hvalues values hfills value (List.mem_reverse.mp hvalue) c hc)
    · intro hnone key hkey c hc
      have hwellFormed := (Piece.divides_ofText template.toList).keys_wellFormed key hkey
      exact (mem_written_token hwellFormed.2 hc).imp id fun hmark =>
        ⟨hmark, values, hfills, List.mem_reverse.mp hnone⟩
  · rw [herror] at h
    exact absurd h (by simp)

namespace Mapper

/-- The container of a template and values in ordinary characters is at most sixty-three characters
long, starts with a letter or a digit and has no two hyphens side by side. It is legal exactly if
the front of the text that the name is made of stands by itself and the container does not end
in a mark of a token. There are no such marks if a value is found for each token. -/
theorem container_is_legal_iff (mapper : Mapper) (template : String) (resolver : Resolver σ)
    (state : σ) {placement : Placement} (htemplate : HasOrdinaryLiterals template)
    (hvalues : resolver.GivesOrdinary template state)
    (h : (mapper.expandPlacement template resolver state).1.1 = .ok placement) :
    let container := placement.container.toList
    ∃ text, Expansion.textOf template resolver state = .ok text ∧
      (container.length ≤ maxLength ∧ (∃ c, container.head? = some c ∧ isPlain c = true) ∧
        ¬ ['-', '-'] <:+: container) ∧
      (IsLegalContainer container ↔
        FrontStands text ∧ ∀ mark ∈ tokenMarks, container.getLast? ≠ some mark) ∧
      ((∃ mark ∈ tokenMarks, mark ∈ container) → resolver.LeavesToken template state) := by
  intro container
  rw [expandPlacement_eq, expand_eq_textOf] at h
  cases htext : Expansion.textOf template resolver state with
  | error error =>
      rw [htext] at h
      exact absurd h (by simp [Except.map])
  | ok text =>
      rw [htext] at h
      have hcontainer : container = containerOf text := by
        rw [containerOf, Except.ok.inj h]
      have hchars := isOrdinary_of_mem_textOf htemplate hvalues htext
      have hordinary : IsOrdinaryText text := fun c hc => (hchars c hc).imp id And.left
      rw [hcontainer]
      refine ⟨text, rfl, ⟨length_containerOf_le text, starts_plain_containerOf hordinary,
        no_double_hyphen_containerOf text⟩, isLegalContainer_iff hordinary, ?_⟩
      rintro ⟨mark, hmark, hmem⟩
      have hnotPlain : ∀ mark ∈ tokenMarks, ¬ isPlain mark = true ∧ mark ≠ '-' :=
        forall_mem_of_all (by decide)
      obtain ⟨_, hsource⟩ := ((isPlain_of_mem_containerOf hordinary hmem).resolve_left
        (hnotPlain mark hmark).1).resolve_left (hnotPlain mark hmark).2
      refine ((hchars mark hsource).resolve_left ?_).2
      rw [isOrdinary_of_mem_tokenMarks mark hmark]
      decide

def twoValues (first second : String) : Resolver Unit :=
  .ofFunction fun key => if key = "A" then some first else if key = "B" then some second else none

def twoKeys : String :=
  "$\x7bA\x7d/$\x7bB\x7d"

theorem hasOrdinaryLiterals_twoKeys : HasOrdinaryLiterals twoKeys := by
  have hpieces : Piece.ofText twoKeys.toList =
      [.token ['A'], .literal '/', .token ['B']] := by
    have hwritten : twoKeys.toList =
        (Piece.token ['A']).written ++ '/' :: ((Piece.token ['B']).written ++ []) := by decide
    rw [hwritten, Piece.ofText_token (by decide) (forall_mem_of_all (by decide)),
      Piece.ofText_literal (by decide),
      Piece.ofText_token (by decide) (forall_mem_of_all (by decide)), Piece.ofText]
  intro c hc
  rw [hpieces] at hc
  have hslash : c = '/' := by simpa using hc
  rw [hslash]
  decide

theorem givesOrdinary_twoValues {first second : String}
    (hfirst : first.toList.all isOrdinary = true) (hsecond : second.toList.all isOrdinary = true) :
    (twoValues first second).GivesOrdinary twoKeys () := by
  rintro values ⟨final, hanswers⟩ value hmem
  obtain ⟨key, state, next, hresolve⟩ := hanswers.given hmem
  simp only [twoValues, Resolver.ofFunction, Prod.mk.injEq, Except.ok.injEq] at hresolve
  obtain ⟨hvalue, _⟩ := hresolve
  split at hvalue
  · rw [← Option.some.inj hvalue]
    exact List.all_eq_true.mp hfirst
  · split at hvalue
    · rw [← Option.some.inj hvalue]
      exact List.all_eq_true.mp hsecond
    · exact absurd hvalue (by simp)

/-- Parentheses vanish and spaces become hyphens, and the front still makes a container. -/
theorem container_of_titled_video :
    let resolver := twoValues "My Video (1)" "x"
    (new.expandPlacement twoKeys resolver ()).1.1 = .ok ⟨"my-video-1", "x/"⟩ ∧
      HasOrdinaryLiterals twoKeys ∧ resolver.GivesOrdinary twoKeys () ∧
      IsLegalContainer "my-video-1".toList := by
  intro resolver
  have hplacement : (new.expandPlacement twoKeys resolver ()).1.1 =
      .ok ⟨"my-video-1", "x/"⟩ := by
    decide +kernel
  have hvalues : resolver.GivesOrdinary twoKeys () := givesOrdinary_twoValues (by decide) (by decide)
  obtain ⟨text, htext, _, hlegal, _⟩ := container_is_legal_iff new twoKeys resolver ()
    hasOrdinaryLiterals_twoKeys hvalues hplacement
  have hknown : Expansion.textOf twoKeys resolver () = .ok "My Video (1)/x".toList := by
    decide +kernel
  rw [hknown] at htext
  refine ⟨hplacement, hasOrdinaryLiterals_twoKeys, hvalues,
    hlegal.mpr ⟨?_, forall_mem_of_all (by decide)⟩⟩
  rw [← Except.ok.inj htext]
  decide +kernel

/-- A front of one character and a front with a hyphen at its end are containers as they are. -/
theorem container_of_short_front_is_illegal :
    (HasOrdinaryLiterals twoKeys ∧ (twoValues "x" "y").GivesOrdinary twoKeys () ∧
      (new.expandPlacement twoKeys (twoValues "x" "y") ()).1.1 = .ok ⟨"x", "y/"⟩ ∧
      ¬ IsLegalContainer "x".toList) ∧
    (twoValues "clip_" "y").GivesOrdinary twoKeys () ∧
      (new.expandPlacement twoKeys (twoValues "clip_" "y") ()).1.1 = .ok ⟨"clip-", "y/"⟩ ∧
      ¬ IsLegalContainer "clip-".toList := by
  refine ⟨⟨hasOrdinaryLiterals_twoKeys, givesOrdinary_twoValues (by decide) (by decide),
    by decide +kernel, fun hlegal => absurd hlegal.minLength_le (by decide)⟩,
    givesOrdinary_twoValues (by decide) (by decide), by decide +kernel, fun hlegal => ?_⟩
  obtain ⟨last, hlast, hplain⟩ := hlegal.ends_plain
  have hhyphen : last = '-' := (Option.some.inj hlast).symm
  rw [hhyphen] at hplain
  exact absurd hplain (by decide)

end Mapper

end MediaMigration
