import MediaMigration.Proofs.Template.Substitution

/-!
# The text that a name is made of

The text of an expansion is the template with its placeholders replaced, as it is before a name is
made of it. If a source gives the same answer to a key whenever it is asked, every token is replaced
or left by itself: the text is there if no key of the template is answered with an error, and it is
the row of pieces with the answer for each token in its place.
-/

namespace MediaMigration

variable {σ : Type}

namespace Expansion

/-- The text that the name of an expanded template is made of. -/
def textOf (template : String) (resolver : Resolver σ) (state : σ) :
    Except MigrationError (List Char) :=
  (substitute resolver (Placeholder.scan template).reverse template.toList state).1

end Expansion

namespace Mapper

theorem expand_eq_substitute (mapper : Mapper) (template : String) (resolver : Resolver σ)
    (state : σ) :
    (mapper.expand template resolver state).1 =
      let (answer, final) := Expansion.substitute resolver (Placeholder.scan template).reverse
        template.toList state
      (answer.map fun text => ResourceName.sanitize (String.ofList text), final) := by
  rw [expand_eq, Expansion.expand, Expansion.expandScanned]
  cases Expansion.substitute resolver (Placeholder.scan template).reverse template.toList state with
  | mk answer final =>
      cases answer with
      | error error => rfl
      | ok text => simp [Except.map, ResourceName.sanitize]

theorem expand_eq_textOf (mapper : Mapper) (template : String) (resolver : Resolver σ) (state : σ) :
    (mapper.expand template resolver state).1.1 =
      (Expansion.textOf template resolver state).map fun text =>
        ResourceName.sanitize (String.ofList text) := by
  rw [expand_eq_substitute]
  rfl

theorem expandPlacement_eq_expand (mapper : Mapper) (template : String) (resolver : Resolver σ)
    (state : σ) :
    (mapper.expandPlacement template resolver state).1 =
      ((mapper.expand template resolver state).1.1.map Placement.ofName,
        (mapper.expand template resolver state).1.2) := by
  unfold expandPlacement
  cases mapper.expand template resolver state with
  | mk found memory =>
      obtain ⟨answer, final⟩ := found
      cases answer with
      | ok name => rfl
      | error error => rfl

@[simp] theorem expandPlacement_eq (mapper : Mapper) (template : String) (resolver : Resolver σ)
    (state : σ) :
    (mapper.expandPlacement template resolver state).1.1 =
      (mapper.expand template resolver state).1.1.map Placement.ofName := by
  rw [expandPlacement_eq_expand]

end Mapper

/-! ## Sources that repeat their answers -/

namespace Resolver

/-- A source that answers a key in the same way whenever it is asked. -/
def Says (resolver : Resolver σ) (answer : String → Except MigrationError (Option String)) : Prop :=
  ∀ key state, (resolver.resolve key state).1 = answer key

variable {resolver : Resolver σ} {answer : String → Except MigrationError (Option String)}

theorem Answers.said (hresolver : resolver.Says answer) {before after : σ} {keys : List String}
    {values : List (Option String)} (h : resolver.Answers before keys values after) :
    keys.map answer = values.map Except.ok := by
  induction h with
  | nil => rfl
  | @cons before between _ key _ value _ first _ ih =>
      have hkey := hresolver key before
      rw [first] at hkey
      rw [List.map_cons, List.map_cons, ih, ← hkey]

end Resolver

/-- The value in an answer, if the answer has one. -/
def valueOf? (answer : Except MigrationError (Option String)) : Option String :=
  match answer with
  | .ok value? => value?
  | .error _ => none

namespace Piece

/-- A piece with what a function gives for its key; a token without a value stays as it is
written. -/
def filledBy (value? : String → Option String) : Piece → List Char
  | literal c => [c]
  | token key =>
      match value? (String.ofList key) with
      | some value => value.toList
      | none => (token key).written

theorem fill_map (value? : String → Option String) (pieces : List Piece) :
    fill pieces ((keys pieces).map value?) = pieces.flatMap (filledBy value?) := by
  induction pieces with
  | nil => rfl
  | cons piece rest ih =>
      cases piece with
      | literal c => simp [fill, keys, filledBy, ih]
      | token key =>
          rw [keys, List.map_cons, List.flatMap_cons, filledBy]
          cases value? (String.ofList key) with
          | some value => simp [fill, ih]
          | none => simp [fill, ih]

theorem keys_ofText (template : String) :
    (Placeholder.scan template).map Placeholder.key = keys (ofText template.toList) := by
  rw [Placeholder.scan, Placeholder.scanFrom_eq_placeholdersFrom, keys_eq_map_placeholdersFrom]

end Piece

namespace Expansion

/-- If all look-ups of a template give an answer, its tokens are filled in with them. -/
theorem substitute_filled {template : String} {resolver : Resolver σ} {state final : σ}
    {values : List (Option String)}
    (h : resolver.Answers state (Piece.keys (Piece.ofText template.toList)).reverse values final) :
    substitute resolver (Placeholder.scan template).reverse template.toList state =
      (.ok (Piece.fill (Piece.ofText template.toList) values.reverse), final) := by
  have hdivides := Piece.divides_ofText template.toList
  have hkeys : KeysWellFormed (Piece.ofText template.toList) := fun key hkey =>
    (hdivides.keys_wellFormed key hkey).2
  have hsub := substitute_of_answers hkeys h []
  rw [List.append_nil, List.append_nil, hdivides.whole] at hsub
  rw [Placeholder.scan, Placeholder.scanFrom_eq_placeholdersFrom, hsub]

/-- A look-up that fails ends the expansion, and the tokens to its left are not looked up. -/
theorem substitute_failed {template : String} {resolver : Resolver σ} {state between final : σ}
    {asked left : List String} {failing : String} {values : List (Option String)}
    {error : MigrationError}
    (hkeys : (Piece.keys (Piece.ofText template.toList)).reverse = asked ++ failing :: left)
    (h : resolver.Answers state asked values between)
    (hfail : resolver.resolve failing between = (.error error, final)) :
    substitute resolver (Placeholder.scan template).reverse template.toList state =
      (.error error, final) := by
  have hmap : (Placeholder.scan template).reverse.map Placeholder.key =
      asked ++ failing :: left := by
    rw [List.map_reverse, Piece.keys_ofText, hkeys]
  exact substitute_of_failure h hfail hmap template.toList

theorem textOf_filled_or_failed (template : String) (resolver : Resolver σ) (state : σ) :
    let pieces := Piece.ofText template.toList
    (∃ values final, resolver.Answers state (Piece.keys pieces).reverse values final ∧
        textOf template resolver state = .ok (Piece.fill pieces values.reverse)) ∨
      ∃ key ∈ Piece.keys pieces, ∃ between error final,
        resolver.resolve key between = (.error error, final) ∧
        textOf template resolver state = .error error := by
  intro pieces
  rcases resolver.answers_or_fails state (Piece.keys pieces).reverse with
    ⟨values, final, h⟩ | ⟨asked, failing, left, values, between, error, final, hsplit, h, hfail⟩
  · exact .inl ⟨values, final, h, by rw [textOf, substitute_filled h]⟩
  · have hkey : failing ∈ Piece.keys pieces := by
      rw [← List.mem_reverse, hsplit]
      exact List.mem_append_right _ List.mem_cons_self
    exact .inr ⟨failing, hkey, between, error, final, hfail, by
      rw [textOf, substitute_failed hsplit h hfail]⟩

variable {resolver : Resolver σ} {answer : String → Except MigrationError (Option String)}

/-- Either all keys are answered, and the text is the row of pieces with the answers in place, or
the answer to a key is the error of the expansion. -/
theorem textOf_cases (hresolver : resolver.Says answer) (template : String) (state : σ) :
    ((∀ key ∈ Piece.keys (Piece.ofText template.toList), ∃ value?, answer key = .ok value?) ∧
        textOf template resolver state =
          .ok ((Piece.ofText template.toList).flatMap
            (Piece.filledBy fun key => valueOf? (answer key)))) ∨
      ∃ key ∈ Piece.keys (Piece.ofText template.toList), ∃ error,
        answer key = .error error ∧ textOf template resolver state = .error error := by
  rcases textOf_filled_or_failed template resolver state with
    ⟨values, final, h, htext⟩ | ⟨key, hkey, between, error, final, hfail, htext⟩
  · left
    have hsaid := congrArg List.reverse (h.said hresolver)
    rw [← List.map_reverse, ← List.map_reverse, List.reverse_reverse] at hsaid
    constructor
    · intro key hkey
      have hmem : answer key ∈ values.reverse.map Except.ok := by
        rw [← hsaid]
        exact List.mem_map_of_mem hkey
      obtain ⟨value?, _, hvalue⟩ := List.mem_map.mp hmem
      exact ⟨value?, hvalue.symm⟩
    · have hvalues : (Piece.keys (Piece.ofText template.toList)).map
          (fun key => valueOf? (answer key)) = values.reverse := by
        have hread := congrArg (List.map valueOf?) hsaid
        rw [List.map_map, List.map_map] at hread
        exact hread.trans (List.map_id _)
      rw [htext, ← hvalues, Piece.fill_map]
  · right
    have hanswer := hresolver key between
    rw [hfail] at hanswer
    exact ⟨key, hkey, error, hanswer.symm, htext⟩

theorem textOf_ok (hresolver : resolver.Says answer) {template : String} {state : σ}
    {text : List Char} (h : textOf template resolver state = .ok text) :
    (∀ key ∈ Piece.keys (Piece.ofText template.toList), ∃ value?, answer key = .ok value?) ∧
      text = (Piece.ofText template.toList).flatMap
        (Piece.filledBy fun key => valueOf? (answer key)) := by
  rcases textOf_cases hresolver template state with ⟨hanswers, htext⟩ | ⟨_, _, error, _, herror⟩
  · exact ⟨hanswers, Except.ok.inj (h.symm.trans htext)⟩
  · rw [herror] at h
    exact absurd h (by simp)

end Expansion

end MediaMigration
