import MediaMigration.Settings.Basic
import MediaMigration.Proofs.Resource.Fields

/-!
# The check of the templates

Settings hold up to four templates, and each is checked against the keys of its kind. What a kind
accepts is spelled out by its field names alone. The check passes exactly when all configured
templates keep to these names. If it fails, it tells the leftmost foreign key of the first template
that has one, as it is written there.
-/

namespace MediaMigration

/-- Is a key one of the names of the kind, whatever the case of its ASCII letters? -/
def ResourceKind.HasKey (kind : ResourceKind) (key : String) : Prop :=
  ∃ name ∈ kind.fieldNames, Text.equalIgnoringCase key name = true

/-- The keys that are accepted are the names that are documented. -/
theorem ResourceKind.accepts_iff {kind : ResourceKind} {key : String} :
    kind.accepts key = true ↔ kind.HasKey key := by
  cases kind with
  | container =>
      rw [Subject.accepts_container, Option.isSome_iff_exists]
      simp only [ContainerField.parse?_eq_some_iff]
      constructor
      · rintro ⟨field, hfield⟩
        cases field
        exact ⟨_, List.mem_singleton_self _, hfield⟩
      · rintro ⟨name, hname, hsame⟩
        rw [fieldNames, List.mem_singleton] at hname
        subst hname
        exact ⟨.containerName, hsame⟩
  | asset =>
      rw [Subject.accepts_asset, Option.isSome_iff_exists]
      simp only [AssetField.parse?_eq_some_iff]
      constructor
      · rintro ⟨field, hfield⟩
        refine ⟨field.name, ?_, hfield⟩
        cases field <;> decide
      · rintro ⟨name, hname, hsame⟩
        have hall : fieldNames .asset = AssetField.all.map AssetField.name := rfl
        rw [hall, List.mem_map] at hname
        obtain ⟨field, -, rfl⟩ := hname
        exact ⟨field, hsame⟩
  | key =>
      rw [Subject.accepts_key, Option.isSome_iff_exists]
      simp only [KeyField.parse?_eq_some_iff]
      constructor
      · rintro ⟨field, hfield⟩
        refine ⟨field.name, ?_, hfield⟩
        cases field <;> decide
      · rintro ⟨name, hname, hsame⟩
        have hall : fieldNames .key = [KeyField.keyId, .policyName].map KeyField.name := rfl
        rw [hall, List.mem_map] at hname
        obtain ⟨field, -, rfl⟩ := hname
        exact ⟨field, hsame⟩

/-- A key of a row of pieces is that of a token, and the keys in front of it are those of the pieces
in front of the token. -/
theorem Piece.exists_token_of_keys {pieces : List Piece} {before after : List String} {key : String}
    (h : keys pieces = before ++ key :: after) :
    ∃ earlier later, pieces = earlier ++ token key.toList :: later ∧ keys earlier = before := by
  induction pieces generalizing before with
  | nil => exact absurd h (by simp [keys])
  | cons piece rest ih =>
      cases piece with
      | literal c =>
          obtain ⟨earlier, later, rfl, hkeys⟩ := ih h
          exact ⟨literal c :: earlier, later, rfl, hkeys⟩
      | token found =>
          rw [keys] at h
          cases before with
          | nil =>
              obtain ⟨rfl, -⟩ := List.cons.inj h
              exact ⟨[], rest, by rw [String.toList_ofList, List.nil_append], rfl⟩
          | cons first others =>
              obtain ⟨rfl, hrest⟩ := List.cons.inj h
              obtain ⟨earlier, later, rfl, hkeys⟩ := ih hrest
              exact ⟨token found :: earlier, later, rfl, by rw [keys, hkeys]⟩

namespace Template

/-! ## One template -/

/-- Does a text, read as a template, use keys of the kind and no others? -/
def UsesOnlyKeysOf (kind : ResourceKind) (text : String) : Prop :=
  ∀ key ∈ Piece.keys (Piece.ofText text.toList), kind.HasKey key

/-- Is this the leftmost key of a text that is none of the kind? It stands in the text as a token
of its own, and the tokens in front of it have keys of the kind. -/
def LeftmostUnknown (kind : ResourceKind) (text key : String) : Prop :=
  ∃ earlier later, Piece.ofText text.toList = earlier ++ .token key.toList :: later ∧
    (∀ known ∈ Piece.keys earlier, kind.HasKey known) ∧ ¬ kind.HasKey key

variable {kind : ResourceKind} {text key : String}

theorem firstUnknownKey?_eq_none_iff :
    firstUnknownKey? text kind = none ↔ UsesOnlyKeysOf kind text := by
  rw [firstUnknownKey?, Piece.keys_ofText, List.find?_eq_none]
  simp only [UsesOnlyKeysOf, Bool.not_eq_true', Bool.not_eq_false, ResourceKind.accepts_iff]

theorem firstUnknownKey?_eq_some_iff :
    firstUnknownKey? text kind = some key ↔ LeftmostUnknown kind text key := by
  rw [firstUnknownKey?, Piece.keys_ofText, List.find?_eq_some_iff_append]
  simp only [Bool.not_eq_true', Bool.not_not, Bool.eq_false_iff, Ne, ResourceKind.accepts_iff]
  constructor
  · rintro ⟨hunknown, before, after, hkeys, hknown⟩
    obtain ⟨earlier, later, hpieces, rfl⟩ := Piece.exists_token_of_keys hkeys
    exact ⟨earlier, later, hpieces, hknown, hunknown⟩
  · rintro ⟨earlier, later, hpieces, hknown, hunknown⟩
    refine ⟨hunknown, Piece.keys earlier, Piece.keys later, ?_, hknown⟩
    rw [hpieces, Piece.keys_append, Piece.keys, String.ofList_toList]

theorem make_eq (text : String) (kind : ResourceKind) :
    (make text kind).map (fun _ => ()) = validate text kind := by
  unfold make
  split
  · next hunknown => simp only [validate, hunknown, Except.map]
  · next hnone => simp only [validate, hnone, Except.map]

theorem validate_eq_ok_iff : validate text kind = .ok () ↔ UsesOnlyKeysOf kind text := by
  rw [← firstUnknownKey?_eq_none_iff, validate]
  cases firstUnknownKey? text kind <;> simp

theorem validate_eq_error_iff {error : MigrationError} :
    validate text kind = .error error ↔
      ∃ key, error = .unknownPlaceholder key kind ∧ LeftmostUnknown kind text key := by
  simp only [← firstUnknownKey?_eq_some_iff]
  rw [validate]
  cases firstUnknownKey? text kind with
  | none => simp
  | some found => simp [eq_comm]

end Template

namespace Settings

/-! ## All templates of the settings -/

variable {settings : Settings}

/-- The templates that are configured, each with its kind, in the order path, container, key, key
address. -/
def configured (settings : Settings) : List (String × ResourceKind) :=
  (settings.pathTemplate, .asset) :: (settings.containerTemplate, .container) ::
    (settings.keyTemplate.toList ++ settings.keyAddressTemplate.toList).map fun text => (text, .key)

def validateAll : List (String × ResourceKind) → Except MigrationError Unit
  | [] => .ok ()
  | (text, kind) :: rest =>
      match Template.validate text kind with
      | .error error => .error error
      | .ok () => validateAll rest

/-- A key of no use is the leftmost one in the first of several texts that has any. -/
def FirstUnknown (texts : List (String × ResourceKind)) (key : String) (kind : ResourceKind) :
    Prop :=
  ∃ before text after, texts = before ++ (text, kind) :: after ∧
    (∀ checked ∈ before, Template.UsesOnlyKeysOf checked.2 checked.1) ∧
    Template.LeftmostUnknown kind text key

theorem validateAll_eq_ok_iff {texts : List (String × ResourceKind)} :
    validateAll texts = .ok () ↔
      ∀ checked ∈ texts, Template.UsesOnlyKeysOf checked.2 checked.1 := by
  induction texts with
  | nil => simp [validateAll]
  | cons checked rest ih =>
      obtain ⟨text, kind⟩ := checked
      rw [List.forall_mem_cons, ← ih, ← Template.validate_eq_ok_iff, validateAll]
      cases Template.validate text kind <;> simp

theorem firstUnknown_cons_iff {text : String} {kind other : ResourceKind}
    {rest : List (String × ResourceKind)} {key : String} :
    FirstUnknown ((text, other) :: rest) key kind ↔
      (other = kind ∧ Template.LeftmostUnknown kind text key) ∨
        (Template.UsesOnlyKeysOf other text ∧ FirstUnknown rest key kind) := by
  constructor
  · rintro ⟨before, found, after, htexts, hfine, hunknown⟩
    cases before with
    | nil =>
        rw [List.nil_append, List.cons.injEq, Prod.mk.injEq] at htexts
        obtain ⟨⟨rfl, rfl⟩, -⟩ := htexts
        exact .inl ⟨rfl, hunknown⟩
    | cons first others =>
        rw [List.cons_append, List.cons.injEq] at htexts
        obtain ⟨rfl, hrest⟩ := htexts
        rw [List.forall_mem_cons] at hfine
        exact .inr ⟨hfine.1, others, found, after, hrest, hfine.2, hunknown⟩
  · rintro (⟨rfl, hunknown⟩ | ⟨hfirst, before, found, after, rfl, hfine, hunknown⟩)
    · exact ⟨[], text, rest, rfl, by simp, hunknown⟩
    · exact ⟨(text, other) :: before, found, after, rfl,
        List.forall_mem_cons.mpr ⟨hfirst, hfine⟩, hunknown⟩

theorem validateAll_eq_error_iff {texts : List (String × ResourceKind)} {error : MigrationError} :
    validateAll texts = .error error ↔
      ∃ key kind, error = .unknownPlaceholder key kind ∧ FirstUnknown texts key kind := by
  induction texts with
  | nil => simp [validateAll, FirstUnknown]
  | cons checked rest ih =>
      obtain ⟨text, other⟩ := checked
      simp only [firstUnknown_cons_iff]
      rw [validateAll]
      cases hvalid : Template.validate text other with
      | error first =>
          constructor
          · intro h
            obtain ⟨key, hkey, hunknown⟩ := Template.validate_eq_error_iff.mp (hvalid.trans h)
            exact ⟨key, other, hkey, .inl ⟨rfl, hunknown⟩⟩
          · rintro ⟨key, kind, hkey, ⟨rfl, hunknown⟩ | ⟨hfine, -⟩⟩
            · exact hvalid.symm.trans (Template.validate_eq_error_iff.mpr ⟨key, hkey, hunknown⟩)
            · rw [← Template.validate_eq_ok_iff, hvalid] at hfine
              exact absurd hfine (by simp)
      | ok done =>
          have hfine : Template.UsesOnlyKeysOf other text := Template.validate_eq_ok_iff.mp hvalid
          constructor
          · intro h
            obtain ⟨key, kind, hkey, hrest⟩ := ih.mp h
            exact ⟨key, kind, hkey, .inr ⟨hfine, hrest⟩⟩
          · rintro ⟨key, kind, hkey, ⟨rfl, hunknown⟩ | ⟨-, hrest⟩⟩
            · have herror := Template.validate_eq_error_iff.mpr ⟨key, hkey, hunknown⟩
              exact absurd (hvalid.symm.trans herror) (by simp)
            · exact ih.mpr ⟨key, kind, hkey, hrest⟩

theorem validateAll_optional (text? : Option String) (rest : List (String × ResourceKind)) :
    validateAll (text?.toList.map (fun text => (text, .key)) ++ rest) =
      (optionalTemplate text? .key).bind fun _ => validateAll rest := by
  cases text? with
  | none => rfl
  | some text =>
      simp only [Option.toList_some, List.map_cons, List.map_nil, List.cons_append,
        List.nil_append, validateAll, optionalTemplate, ← Template.make_eq]
      cases Template.make text .key <;> rfl

theorem templates_eq_validateAll (settings : Settings) :
    settings.templates.map (fun _ => ()) = validateAll settings.configured := by
  unfold templates configured
  rw [validateAll, validateAll, ← Template.make_eq, ← Template.make_eq]
  cases Template.make settings.pathTemplate .asset with
  | error error => rfl
  | ok path =>
      cases Template.make settings.containerTemplate .container with
      | error error => rfl
      | ok container =>
          have haddress := validateAll_optional settings.keyAddressTemplate []
          rw [List.append_nil] at haddress
          simp only [Except.map, List.map_append, validateAll_optional, haddress, validateAll]
          cases optionalTemplate settings.keyTemplate .key with
          | error error => rfl
          | ok key => cases optionalTemplate settings.keyAddressTemplate .key <;> rfl

theorem templates_ok_iff :
    (∃ templates, settings.templates = .ok templates) ↔
      ∀ checked ∈ settings.configured, Template.UsesOnlyKeysOf checked.2 checked.1 := by
  rw [← validateAll_eq_ok_iff, ← templates_eq_validateAll]
  cases settings.templates <;> simp [Except.map]

/-- The check fails with the first unknown key and the kind of the template that has it. -/
theorem templates_eq_error_iff {error : MigrationError} :
    settings.templates = .error error ↔
      ∃ key kind, error = .unknownPlaceholder key kind ∧
        FirstUnknown settings.configured key kind := by
  rw [← validateAll_eq_error_iff, ← templates_eq_validateAll]
  cases settings.templates <;> simp [Except.map]

end Settings

end MediaMigration
