import Mathlib.Data.List.Induction
import MediaMigration.Proofs.Template.Piece
import MediaMigration.Template.Mapper

/-!
# Expansion is simultaneous substitution

Placeholders are replaced in place, from right to left, at byte ranges of the text as it
was at first. The text left of the place that changes is still the written row of pieces
that stood there, which is what keeps the ranges valid: values of any length, and values
that look like placeholders, only ever stand to the right. So the outcome is the row of
pieces with every token filled in at once.
-/

namespace MediaMigration

open String (utf8Len)

variable {σ : Type}

namespace Resolver

/-! ## Calls on a source of values -/

/-- Asking for keys one after the other is answered with values, and leads to a state. -/
inductive Answers (resolver : Resolver σ) : σ → List String → List (Option String) → σ → Prop
  | nil (state : σ) : Answers resolver state [] [] state
  | cons {before between after : σ} {key : String} {keys : List String}
      {value : Option String} {values : List (Option String)}
      (first : resolver.resolve key before = (.ok value, between))
      (rest : Answers resolver between keys values after) :
      Answers resolver before (key :: keys) (value :: values) after

/-- The same source, which also notes the keys it is asked for, in order. -/
def recorded (resolver : Resolver σ) : Resolver (σ × List String) :=
  ⟨fun key state =>
    let (answer, next) := resolver.resolve key state.1
    (answer, (next, state.2 ++ [key]))⟩

theorem Answers.length_eq {resolver : Resolver σ} {before after : σ} {keys : List String}
    {values : List (Option String)} (h : resolver.Answers before keys values after) :
    values.length = keys.length := by
  induction h with
  | nil => rfl
  | cons _ _ ih => simp [ih]

theorem Answers.recorded {resolver : Resolver σ} {before after : σ} {keys : List String}
    {values : List (Option String)} (h : resolver.Answers before keys values after)
    (noted : List String) :
    resolver.recorded.Answers (before, noted) keys values (after, noted ++ keys) := by
  induction h generalizing noted with
  | nil => simpa using Answers.nil _
  | @cons _ between _ key _ _ _ first _ ih =>
      have hrest := ih (noted ++ [key])
      rw [List.append_assoc, List.singleton_append] at hrest
      exact .cons (by simp [Resolver.recorded, first]) hrest

/-- Asking for keys one after the other either answers all of them or comes to a first
call that fails. -/
theorem answers_or_fails (resolver : Resolver σ) (state : σ) (keys : List String) :
    (∃ values final, resolver.Answers state keys values final) ∨
      ∃ asked failing left values between error final,
        keys = asked ++ failing :: left ∧ resolver.Answers state asked values between ∧
          resolver.resolve failing between = (.error error, final) := by
  induction keys generalizing state with
  | nil => exact .inl ⟨[], state, .nil state⟩
  | cons key keys ih =>
      cases hcall : resolver.resolve key state with
      | mk answer between =>
          cases answer with
          | error error => exact .inr ⟨[], key, keys, [], state, error, between, rfl, .nil state, hcall⟩
          | ok value =>
              rcases ih between with ⟨values, final, h⟩ | h
              · exact .inl ⟨value :: values, final, .cons hcall h⟩
              · obtain ⟨asked, failing, left, values, middle, error, final, rfl, h, hfail⟩ := h
                exact .inr ⟨key :: asked, failing, left, value :: values, middle, error, final, rfl,
                  .cons hcall h, hfail⟩

end Resolver

namespace Expansion

/-! ## Cutting and splicing -/

theorem cutAt?_append (before after : List Char) :
    cutAt? (utf8Len before) (before ++ after) = some (before, after) := by
  induction before with
  | nil => cases after <;> rfl
  | cons c rest ih =>
      have hc := Char.utf8Size_pos c
      obtain ⟨count, hcount⟩ : ∃ count, utf8Len (c :: rest) = count + 1 :=
        ⟨utf8Len rest + c.utf8Size - 1, by rw [String.utf8Len_cons]; omega⟩
      have hle : ¬ count + 1 < c.utf8Size := by
        rw [← hcount, String.utf8Len_cons]
        omega
      have hsub : count + 1 - c.utf8Size = utf8Len rest := by
        rw [← hcount, String.utf8Len_cons]
        omega
      rw [hcount, List.cons_append, cutAt?, if_neg hle, hsub, ih]

theorem eq_append_of_cutAt? {count : Nat} {text before after : List Char}
    (h : cutAt? count text = some (before, after)) :
    text = before ++ after ∧ utf8Len before = count := by
  induction text generalizing count before with
  | nil =>
      cases count with
      | zero =>
          cases h
          exact ⟨rfl, rfl⟩
      | succ count => exact absurd h (by simp [cutAt?])
  | cons c rest ih =>
      cases count with
      | zero =>
          cases h
          exact ⟨rfl, rfl⟩
      | succ count =>
          rw [cutAt?] at h
          split at h
          · exact absurd h (by simp)
          · next hsize =>
              cases hcut : cutAt? (count + 1 - c.utf8Size) rest with
              | none => simp [hcut] at h
              | some pair =>
                  simp only [hcut, Option.some.injEq, Prod.mk.injEq] at h
                  obtain ⟨rfl, rfl⟩ := h
                  obtain ⟨hrest, hlen⟩ := ih hcut
                  refine ⟨by rw [hrest, List.cons_append], ?_⟩
                  rw [String.utf8Len_cons, hlen]
                  omega

/-- A text is cut where a number of bytes ends with a character, and nowhere else. -/
theorem cutAt?_eq_some_iff {count : Nat} {text before after : List Char} :
    cutAt? count text = some (before, after) ↔
      text = before ++ after ∧ utf8Len before = count := by
  constructor
  · exact eq_append_of_cutAt?
  · rintro ⟨rfl, rfl⟩
    exact cutAt?_append before after

theorem splice?_append (before middle after value : List Char) :
    splice? (before ++ (middle ++ after)) (utf8Len before) (utf8Len before + utf8Len middle) value =
      some (before ++ value ++ after) := by
  have hstart : cutAt? (utf8Len before) (before ++ (middle ++ after)) =
      some (before, middle ++ after) := cutAt?_eq_some_iff.mpr ⟨rfl, rfl⟩
  have hstop : cutAt? (utf8Len before + utf8Len middle) (before ++ (middle ++ after)) =
      some (before ++ middle, after) :=
    cutAt?_eq_some_iff.mpr ⟨(List.append_assoc ..).symm, String.utf8Len_append ..⟩
  simp [splice?, hstart, hstop]

/-- Replacing placeholders as in `substitute`, but a range that lies outside of the text or
cuts through a character ends everything. -/
def substituteChecked (resolver : Resolver σ) :
    List Placeholder → List Char → σ → Option (Except MigrationError (List Char) × σ)
  | [], text, state => some (.ok text, state)
  | placeholder :: rest, text, state =>
      match resolver.resolve placeholder.key state with
      | (.error error, state) => some (.error error, state)
      | (.ok none, state) => substituteChecked resolver rest text state
      | (.ok (some value), state) =>
          match splice? text placeholder.start placeholder.stop value.toList with
          | none => none
          | some text => substituteChecked resolver rest text state

end Expansion

namespace Piece

/-- A row of pieces with the tokens filled in from the left: a value takes the place of its
token, a token without a value stays as it is written. -/
def fill : List Piece → List (Option String) → List Char
  | [], _ => []
  | literal c :: rest, values => c :: fill rest values
  | token _ :: rest, some value :: values => value.toList ++ fill rest values
  | token key :: rest, none :: values => (token key).written ++ fill rest values
  | token key :: rest, [] => (token key).written ++ fill rest []

theorem fill_append {first : List Piece} {values : List (Option String)}
    (h : values.length = (keys first).length) (second : List Piece)
    (others : List (Option String)) :
    fill (first ++ second) (values ++ others) = fill first values ++ fill second others := by
  induction first generalizing values with
  | nil =>
      have hnil : values = [] := List.eq_nil_of_length_eq_zero h
      simp [hnil, fill]
  | cons piece rest ih =>
      cases piece with
      | literal c => simp [fill, ih h]
      | token key =>
          cases values with
          | nil => simp [keys] at h
          | cons value values =>
              have hlength : values.length = (keys rest).length := by simpa [keys] using h
              have hrest := ih hlength
              cases value <;> simp [fill, hrest]

end Piece

namespace Expansion

/-! ## Replacing the tokens of a row of pieces -/

/-- The replacement of a placeholder goes through at the last token of a row, whatever
stands behind it. -/
theorem splice?_last_token {first : List Piece} {key : List Char}
    (hkey : ∀ c ∈ key, Placeholder.isKeyChar c = true) (tail value : List Char) :
    splice? (Piece.writtenAll first ++ ((Piece.token key).written ++ tail))
        (utf8Len (Piece.writtenAll first)) (utf8Len (Piece.writtenAll first) + key.length + 3) value =
      some (Piece.writtenAll first ++ (value ++ tail)) := by
  have h := splice?_append (Piece.writtenAll first) (Piece.token key).written tail value
  rw [Piece.utf8Len_written_token hkey, ← Nat.add_assoc] at h
  rw [h, List.append_assoc]

/-- The keys of the tokens of a row are made of key characters. -/
def KeysWellFormed (pieces : List Piece) : Prop :=
  ∀ key, Piece.token key ∈ pieces → ∀ c ∈ key, Placeholder.isKeyChar c = true

theorem KeysWellFormed.init {first : List Piece} {piece : Piece}
    (h : KeysWellFormed (first ++ [piece])) : KeysWellFormed first :=
  fun key hkey => h key (List.mem_append_left _ hkey)

theorem reverse_placeholdersFrom_literal {first : List Piece} (h : KeysWellFormed first) (c : Char) :
    (Piece.placeholdersFrom 0 (first ++ [.literal c])).reverse =
      (Piece.placeholdersFrom 0 first).reverse := by
  simp [Piece.placeholdersFrom_append h, Piece.placeholdersFrom]

theorem reverse_placeholdersFrom_token {first : List Piece} (h : KeysWellFormed first)
    (key : List Char) :
    (Piece.placeholdersFrom 0 (first ++ [.token key])).reverse =
      ⟨String.ofList key, utf8Len (Piece.writtenAll first),
          utf8Len (Piece.writtenAll first) + key.length + 3⟩ ::
        (Piece.placeholdersFrom 0 first).reverse := by
  simp [Piece.placeholdersFrom_append h, Piece.placeholdersFrom]

/-- From right to left, no replacement meets a range that cannot be cut out. -/
theorem substituteChecked_eq_some (resolver : Resolver σ) {pieces : List Piece}
    (h : KeysWellFormed pieces) (tail : List Char) (state : σ) :
    substituteChecked resolver (Piece.placeholdersFrom 0 pieces).reverse
        (Piece.writtenAll pieces ++ tail) state =
      some (substitute resolver (Piece.placeholdersFrom 0 pieces).reverse
        (Piece.writtenAll pieces ++ tail) state) := by
  induction pieces using List.reverseRecOn generalizing tail state with
  | nil => rfl
  | append_singleton first piece ih =>
      cases piece with
      | literal c =>
          rw [reverse_placeholdersFrom_literal h.init, Piece.writtenAll_append, List.append_assoc]
          exact ih h.init _ state
      | token key =>
          have hkey := h key (by simp)
          rw [reverse_placeholdersFrom_token h.init, Piece.writtenAll_append, List.append_assoc]
          simp only [Piece.writtenAll_cons, Piece.writtenAll_nil, List.append_nil]
          rw [substituteChecked, substitute]
          rcases resolver.resolve (String.ofList key) state with ⟨answer, next⟩
          cases answer with
          | error error => rfl
          | ok value? =>
              cases value? with
              | none => exact ih h.init _ next
              | some value =>
                  simp only [replace, splice?_last_token hkey, Option.getD_some]
                  exact ih h.init _ next

/-- From right to left, answered tokens are replaced by their values and the others stay. -/
theorem substitute_of_answers {resolver : Resolver σ} {pieces : List Piece}
    (h : KeysWellFormed pieces) {state final : σ} {values : List (Option String)}
    (ha : resolver.Answers state (Piece.keys pieces).reverse values final) (tail : List Char) :
    substitute resolver (Piece.placeholdersFrom 0 pieces).reverse
        (Piece.writtenAll pieces ++ tail) state =
      (.ok (Piece.fill pieces values.reverse ++ tail), final) := by
  induction pieces using List.reverseRecOn generalizing tail state values with
  | nil =>
      cases ha
      rfl
  | append_singleton first piece ih =>
      cases piece with
      | literal c =>
          simp only [Piece.keys_append, Piece.keys, List.append_nil] at ha
          have hlength : values.reverse.length = (Piece.keys first).length := by
            simpa using ha.length_eq
          have hfill := Piece.fill_append hlength [.literal c] []
          rw [List.append_nil] at hfill
          rw [reverse_placeholdersFrom_literal h.init, Piece.writtenAll_append, List.append_assoc,
            ih h.init ha, hfill]
          simp [Piece.fill, Piece.written]
      | token key =>
          have hkey := h key (by simp)
          simp only [Piece.keys_append, Piece.keys, List.reverse_append, List.reverse_singleton,
            List.singleton_append] at ha
          cases ha with
          | @cons _ between _ _ _ value? values hfirst hrest =>
              have hlength : values.reverse.length = (Piece.keys first).length := by
                simpa using hrest.length_eq
              rw [reverse_placeholdersFrom_token h.init, Piece.writtenAll_append, List.append_assoc]
              simp only [Piece.writtenAll_cons, Piece.writtenAll_nil, List.append_nil]
              rw [substitute]
              simp only [hfirst, List.reverse_cons, Piece.fill_append hlength]
              cases value? with
              | none =>
                  simp only [ih h.init hrest]
                  simp [Piece.fill]
              | some value =>
                  simp only [replace, splice?_last_token hkey, Option.getD_some, ih h.init hrest]
                  simp [Piece.fill]

/-- The first call that fails ends the replacing, whatever the text has become by then. -/
theorem substitute_of_failure {resolver : Resolver σ} {state between final : σ}
    {asked left : List String} {failing : String} {values : List (Option String)}
    {error : MigrationError} (ha : resolver.Answers state asked values between)
    (hf : resolver.resolve failing between = (.error error, final))
    {placeholders : List Placeholder}
    (hkeys : placeholders.map Placeholder.key = asked ++ failing :: left) (text : List Char) :
    substitute resolver placeholders text state = (.error error, final) := by
  induction ha generalizing placeholders text with
  | nil =>
      obtain ⟨first, rest, rfl, hfirst, -⟩ := List.map_eq_cons_iff.mp hkeys
      rw [substitute, hfirst, hf]
  | @cons _ _ _ _ _ value? _ hfirst _ ih =>
      obtain ⟨first, rest, rfl, hkey, hrest⟩ := List.map_eq_cons_iff.mp hkeys
      rw [substitute, hkey, hfirst]
      cases value? with
      | none => exact ih hf hrest text
      | some value => exact ih hf hrest _

end Expansion

namespace Mapper

theorem scan_found (mapper : Mapper) (template : String) :
    (mapper.scan template).1.found = Placeholder.scan template := by
  unfold scan
  cases hknown : mapper.remembered? template with
  | none => rfl
  | some known =>
      unfold remembered? at hknown
      cases hslot : mapper.scans.findIdx? fun scan => scan.1 == template with
      | none => simp [hslot] at hknown
      | some slot =>
          obtain ⟨hlt, heq, -⟩ := List.findIdx?_eq_some_iff_getElem.mp hslot
          simp only [hslot, List.getElem?_eq_getElem hlt, Option.map_some, Option.some.injEq] at hknown
          rw [← hknown]
          simpa [eq_of_beq heq] using mapper.sound _ (List.getElem_mem hlt)

theorem expand_eq (mapper : Mapper) (template : String) (resolver : Resolver σ) (state : σ) :
    (mapper.expand template resolver state).1 = Expansion.expand template resolver state := by
  simp [expand, Expansion.expand, scan_found]

/-- Expanding a template substitutes all its tokens at once. Its tokens are asked for once
each, from right to left. If all are answered, the name is made of the template with every
token replaced by the value given for it, or left as it stands where there is none. If a call
fails, its error is the outcome and no token to the left of it is asked for. No replacement
ever meets a range that cannot be cut out of the text. -/
theorem expand_substitutes_at_once (mapper : Mapper) (template : String) (resolver : Resolver σ)
    (state : σ) :
    let pieces := Piece.ofText template.toList
    let keys := (Piece.keys pieces).reverse
    let found := (Placeholder.scan template).reverse
    Piece.Divides template.toList pieces ∧
      Expansion.substituteChecked resolver found template.toList state =
        some (Expansion.substitute resolver found template.toList state) ∧
      ((∃ values final,
          resolver.Answers state keys values final ∧
          (mapper.expand template resolver state).1 =
            (.ok (ResourceName.sanitize (String.ofList (Piece.fill pieces values.reverse))), final) ∧
          (mapper.expand template resolver.recorded (state, [])).1.2 = (final, keys)) ∨
        ∃ asked failing left values between error final,
          keys = asked ++ failing :: left ∧
          resolver.Answers state asked values between ∧
          resolver.resolve failing between = (.error error, final) ∧
          (mapper.expand template resolver state).1 = (.error error, final) ∧
          (mapper.expand template resolver.recorded (state, [])).1.2 = (final, asked ++ [failing])) := by
  intro pieces keys found
  have hdivides := Piece.divides_ofText template.toList
  have hkeys : Expansion.KeysWellFormed pieces := fun key h => (hdivides.keys_wellFormed key h).2
  have hfound : found = (Piece.placeholdersFrom 0 pieces).reverse := by
    simp only [found, pieces, Placeholder.scan, Placeholder.scanFrom_eq_placeholdersFrom]
  have htext : template.toList = Piece.writtenAll pieces ++ [] := by
    rw [List.append_nil, hdivides.whole]
  have hexpand : ∀ {τ : Type} (source : Resolver τ) (start : τ),
      (mapper.expand template source start).1 =
        Expansion.expandScanned template found.reverse source start := by
    intro τ source start
    rw [expand_eq, Expansion.expand]
    simp [found]
  refine ⟨hdivides, ?_, ?_⟩
  · rw [hfound, htext]
    exact Expansion.substituteChecked_eq_some resolver hkeys [] state
  · rcases resolver.answers_or_fails state keys with ⟨values, final, h⟩ | h
    · refine .inl ⟨values, final, h, ?_, ?_⟩
      · have hsub := Expansion.substitute_of_answers hkeys h []
        rw [← hfound, ← htext] at hsub
        simp [hexpand, Expansion.expandScanned, hsub, ResourceName.sanitize]
      · have hsub := Expansion.substitute_of_answers hkeys (h.recorded []) []
        rw [← hfound, ← htext] at hsub
        simp [hexpand, Expansion.expandScanned, hsub]
    · obtain ⟨asked, failing, left, values, between, error, final, hsplit, h, hfail⟩ := h
      have hmap : found.map Placeholder.key = asked ++ failing :: left := by
        rw [hfound, List.map_reverse, Piece.keys_eq_map_placeholdersFrom]
        exact hsplit
      refine .inr ⟨asked, failing, left, values, between, error, final, hsplit, h, hfail, ?_, ?_⟩
      · have hsub := Expansion.substitute_of_failure h hfail hmap template.toList
        simp [hexpand, Expansion.expandScanned, hsub]
      · have hnoted : resolver.recorded.resolve failing (between, [] ++ asked) =
            (.error error, (final, asked ++ [failing])) := by
          simp [Resolver.recorded, hfail]
        have hsub := Expansion.substitute_of_failure (h.recorded []) hnoted hmap template.toList
        simp [hexpand, Expansion.expandScanned, hsub]

/-! ## What was expanded before makes no difference -/

section Memory

variable (mapper other : Mapper)

theorem expand_of_any (template : String) (resolver : Resolver σ) (state : σ) :
    (mapper.expand template resolver state).1 = (other.expand template resolver state).1 := by
  rw [expand_eq, expand_eq]

theorem expandPlacement_of_any (template : String) (resolver : Resolver σ) (state : σ) :
    (mapper.expandPlacement template resolver state).1 =
      (other.expandPlacement template resolver state).1 := by
  have hsame := mapper.expand_of_any other template resolver state
  unfold expandPlacement
  cases hfirst : mapper.expand template resolver state with
  | mk found memory =>
      cases hsecond : other.expand template resolver state with
      | mk otherFound otherMemory =>
          rw [hfirst, hsecond] at hsame
          obtain rfl : found = otherFound := hsame
          obtain ⟨answer, final⟩ := found
          cases answer with
          | ok name => rfl
          | error error => rfl

theorem expandAsset_of_any (asset : Asset) (source : LocatorSource) (template : String) :
    (mapper.expandAsset asset source template).1 = (other.expandAsset asset source template).1 :=
  mapper.expandPlacement_of_any other template (asset.resolver source) []

theorem expandContainer_of_any (container : Container) (template : String) :
    (mapper.expandContainer container template).1 =
      (other.expandContainer container template).1 := by
  have hsame := mapper.expandPlacement_of_any other template container.resolver ()
  simp only [expandContainer, hsame]

theorem expandKey_of_any (key : ContentKey) (template? : Option String) :
    (mapper.expandKey key template?).1 = (other.expandKey key template?).1 := by
  cases template? with
  | none => rfl
  | some template =>
      have hsame := mapper.expand_of_any other template key.resolver ()
      simp only [expandKey, hsame]

theorem expandKeyAddress_of_any (template keyId : String) :
    (mapper.expandKeyAddress template keyId).1 = (other.expandKeyAddress template keyId).1 := by
  have hsame := mapper.expand_of_any other template (keyAddressResolver keyId) ()
  simp only [expandKeyAddress, hsame]

end Memory

end Mapper

end MediaMigration
