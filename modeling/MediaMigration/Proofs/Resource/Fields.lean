import MediaMigration.Proofs.Template.FilledText

/-!
# Fields and their values

The fields of a kind of resource are spelled out where templates are checked and again where values
are looked up. Both go by the same names, so a key that a template may use is a field of the
resource, and the resource has a value for it unless it leaves this very field open. What stays
unreplaced in an accepted template are the tokens of such fields, and no others.
-/

namespace MediaMigration

namespace Text

theorem equalIgnoringCase_iff {s t : String} :
    equalIgnoringCase s t = true ↔ s.toList.map Char.toLower = t.toList.map Char.toLower := by
  rw [equalIgnoringCase, beq_iff_eq]

theorem equalIgnoringCase_comm (s t : String) : equalIgnoringCase s t = equalIgnoringCase t s := by
  rw [Bool.eq_iff_iff, equalIgnoringCase_iff, equalIgnoringCase_iff, eq_comm]

end Text

/-! ## The field of a key -/

theorem ContainerField.parse?_eq_some_iff {key : String} {field : ContainerField} :
    ContainerField.parse? key = some field ↔ Text.equalIgnoringCase key field.name = true := by
  cases field
  simp [ContainerField.parse?, ContainerField.name]

theorem AssetField.eq_of_names {first second : AssetField}
    (h : Text.equalIgnoringCase first.name second.name = true) : first = second := by
  revert h
  cases first <;> cases second <;> decide

theorem AssetField.name_of_parse? {key : String} {field : AssetField}
    (h : AssetField.parse? key = some field) : Text.equalIgnoringCase field.name key = true := by
  unfold AssetField.parse? at h
  simpa using List.find?_some h

theorem AssetField.parse?_eq_some_iff {key : String} {field : AssetField} :
    AssetField.parse? key = some field ↔ Text.equalIgnoringCase key field.name = true := by
  constructor
  · intro h
    rw [Text.equalIgnoringCase_comm]
    exact AssetField.name_of_parse? h
  · intro h
    rw [Text.equalIgnoringCase_comm] at h
    have hmem : field ∈ AssetField.all := by cases field <;> decide
    have hsome : (AssetField.parse? key).isSome = true :=
      List.find?_isSome.mpr ⟨field, hmem, h⟩
    obtain ⟨other, hother⟩ := Option.isSome_iff_exists.mp hsome
    have hname := AssetField.name_of_parse? hother
    have hsame : Text.equalIgnoringCase other.name field.name = true := by
      rw [Text.equalIgnoringCase_iff] at h hname ⊢
      rw [hname, h]
    rw [hother, AssetField.eq_of_names hsame]

theorem KeyField.parse?_eq_some_iff {key : String} {field : KeyField} :
    KeyField.parse? key = some field ↔ Text.equalIgnoringCase key field.name = true := by
  unfold KeyField.parse?
  by_cases hid : Text.equalIgnoringCase key "KeyId" = true
  · rw [if_pos hid]
    cases field with
    | keyId => simpa [KeyField.name] using hid
    | policyName =>
        have hother : ¬ Text.equalIgnoringCase key "PolicyName" = true := by
          intro hpolicy
          rw [Text.equalIgnoringCase_iff] at hid hpolicy
          exact absurd (hid.symm.trans hpolicy) (by decide)
        simp [KeyField.name, hother]
  · rw [if_neg hid]
    cases field with
    | keyId => simp [KeyField.name, hid]
    | policyName => simp [KeyField.name]

/-! ## What a template is filled in for -/

/-- What the tokens of a template can be filled in for. The address of a content key is made of the
identifier alone. -/
inductive Subject where
  | container (container : Container)
  | asset (asset : Asset) (source : LocatorSource)
  | key (key : ContentKey)
  | keyAddress (keyId : String)

namespace Subject

def kind : Subject → ResourceKind
  | container _ => .container
  | asset _ _ => .asset
  | key _ => .key
  | keyAddress _ => .key

abbrev Lookups : Subject → Type
  | asset _ _ => List LocatorCall
  | _ => Unit

def resolver : (subject : Subject) → Resolver subject.Lookups
  | container owner => owner.resolver
  | asset owner source => owner.resolver source
  | key owner => owner.resolver
  | keyAddress keyId => keyAddressResolver keyId

def value (subject : Subject) (key : String) : Except MigrationError (Option String) :=
  match subject with
  | container owner => .ok (owner.value? key)
  | asset owner source => (owner.value source key).1
  | .key owner => .ok (owner.value? key)
  | keyAddress keyId => .ok (keyAddressValue? keyId key)

/-- The keys of the fields that the subject leaves open: the container of an asset that has none,
the policy of a content key that has none, and the policy in the address of any content key. -/
def LeavesOpen : Subject → String → Prop
  | container _, _ => False
  | asset owner _, name =>
      Text.equalIgnoringCase name "ContainerName" = true ∧ owner.container = none
  | key owner, name => Text.equalIgnoringCase name "PolicyName" = true ∧ owner.policyName = none
  | keyAddress _, name => Text.equalIgnoringCase name "PolicyName" = true

def LooksUp : Subject → String → Prop
  | asset _ _, name => Text.equalIgnoringCase name "StreamingUrl" = true
  | _, _ => False

theorem resolver_answers (subject : Subject) : subject.resolver.Says subject.value := by
  intro key state
  cases subject <;> rfl

/-! ## Keys that a kind accepts -/

@[simp] theorem accepts_container (key : String) :
    ResourceKind.container.accepts key = (ContainerField.parse? key).isSome := by
  simp [ResourceKind.accepts, ResourceKind.field?]

@[simp] theorem accepts_asset (key : String) :
    ResourceKind.asset.accepts key = (AssetField.parse? key).isSome := by
  simp [ResourceKind.accepts, ResourceKind.field?]

@[simp] theorem accepts_key (key : String) :
    ResourceKind.key.accepts key = (KeyField.parse? key).isSome := by
  simp [ResourceKind.accepts, ResourceKind.field?]

theorem value_of_not_accepted {subject : Subject} {key : String}
    (h : subject.kind.accepts key = false) : subject.value key = .ok none := by
  cases subject with
  | container owner =>
      rw [kind, accepts_container, Option.isSome_eq_false_iff, Option.isNone_iff_eq_none] at h
      simp [value, Container.value?, h]
  | asset owner source =>
      rw [kind, accepts_asset, Option.isSome_eq_false_iff, Option.isNone_iff_eq_none] at h
      simp [value, Asset.value, h]
  | key owner =>
      rw [kind, accepts_key, Option.isSome_eq_false_iff, Option.isNone_iff_eq_none] at h
      simp [value, ContentKey.value?, h]
  | keyAddress keyId =>
      rw [kind, accepts_key, Option.isSome_eq_false_iff, Option.isNone_iff_eq_none] at h
      simp [value, keyAddressValue?, h]

theorem asset_value_eq_none_iff {asset : Asset} {source : LocatorSource} {key : String}
    {field : AssetField} (hfield : AssetField.parse? key = some field) :
    (asset.value source key).1 = .ok none ↔ field = .containerName ∧ asset.container = none := by
  unfold Asset.value
  rw [hfield]
  cases field with
  | assetId => simp
  | assetName => simp
  | alternateId => simp
  | containerName => simp
  | streamingUrl =>
      simp only [reduceCtorEq, false_and, iff_false]
      cases source.streamingUrl asset with
      | mk answer calls => cases answer <;> simp

/-- A field of the kind has a value, or looking for it fails, unless the subject leaves it open. -/
theorem value_eq_none_iff {subject : Subject} {key : String}
    (h : subject.kind.accepts key = true) :
    subject.value key = .ok none ↔ subject.LeavesOpen key := by
  cases subject with
  | container owner =>
      rw [kind, accepts_container] at h
      obtain ⟨field, hfield⟩ := Option.isSome_iff_exists.mp h
      simp [value, LeavesOpen, Container.value?, hfield]
  | asset owner source =>
      rw [kind, accepts_asset] at h
      obtain ⟨field, hfield⟩ := Option.isSome_iff_exists.mp h
      have hname : field = .containerName ↔
          Text.equalIgnoringCase key "ContainerName" = true := by
        rw [← AssetField.name, ← AssetField.parse?_eq_some_iff, hfield, Option.some.injEq]
      rw [value, LeavesOpen, asset_value_eq_none_iff hfield, hname]
  | key owner =>
      rw [kind, accepts_key] at h
      obtain ⟨field, hfield⟩ := Option.isSome_iff_exists.mp h
      have hname : field = .policyName ↔ Text.equalIgnoringCase key "PolicyName" = true := by
        rw [← KeyField.name, ← KeyField.parse?_eq_some_iff, hfield, Option.some.injEq]
      rw [value, LeavesOpen, ← hname, ContentKey.value?, hfield]
      cases field <;> simp
  | keyAddress keyId =>
      rw [kind, accepts_key] at h
      obtain ⟨field, hfield⟩ := Option.isSome_iff_exists.mp h
      have hname : field = .policyName ↔ Text.equalIgnoringCase key "PolicyName" = true := by
        rw [← KeyField.name, ← KeyField.parse?_eq_some_iff, hfield, Option.some.injEq]
      rw [value, LeavesOpen, ← hname, keyAddressValue?, hfield]
      cases field <;> simp

theorem looksUp_of_error {subject : Subject} {key : String} {error : MigrationError}
    (h : subject.value key = .error error) : subject.LooksUp key := by
  cases subject with
  | container owner => exact absurd h (by simp [value])
  | key owner => exact absurd h (by simp [value])
  | keyAddress keyId => exact absurd h (by simp [value])
  | asset owner source =>
      rw [value, Asset.value] at h
      cases hfield : AssetField.parse? key with
      | none => simp [hfield] at h
      | some field =>
          cases field with
          | streamingUrl => exact AssetField.parse?_eq_some_iff.mp hfield
          | assetId => simp [hfield] at h
          | assetName => simp [hfield] at h
          | alternateId => simp [hfield] at h
          | containerName => simp [hfield] at h

end Subject

theorem Template.accepts_of_mem_keys {template : Template} {key : String}
    (h : key ∈ Piece.keys (Piece.ofText template.text.toList)) :
    template.kind.accepts key = true := by
  have hnone := template.accepted
  rw [firstUnknownKey?, Piece.keys_ofText, List.find?_eq_none] at hnone
  simpa using hnone key h

/-- The check of templates and the values of resources go by the same fields. Whatever was looked up
before, a key that is no field of the kind of a resource has no value, and a field has one unless it
is one that the resource leaves open: the container of an asset that has none, the policy of a
content key that has none or whose address is made. Only the look-up of a streaming URL can fail.
So if a template of the kind can be expanded, the name is made of the template with every token
replaced but those of such fields, which stay as they are written. -/
theorem Subject.tokens_left_are_open (subject : Subject) :
    (∀ key state,
      (subject.kind.accepts key = false →
        (subject.resolver.resolve key state).1 = .ok none) ∧
      (subject.kind.accepts key = true →
        ((subject.resolver.resolve key state).1 = .ok none ↔ subject.LeavesOpen key)) ∧
      ∀ error, (subject.resolver.resolve key state).1 = .error error → subject.LooksUp key) ∧
    ∀ (template : Template) (mapper : Mapper) state name, template.kind = subject.kind →
      (mapper.expand template.text subject.resolver state).1.1 = .ok name →
      ∃ (text : List Char) (value? : String → Option String),
        Expansion.textOf template.text subject.resolver state = .ok text ∧
        name = ResourceName.sanitize (String.ofList text) ∧
        text = (Piece.ofText template.text.toList).flatMap (Piece.filledBy value?) ∧
        ∀ key ∈ Piece.keys (Piece.ofText template.text.toList),
          (∀ later, (subject.resolver.resolve key later).1 = .ok (value? key)) ∧
          (value? key = none ↔ subject.LeavesOpen key) := by
  have hresolver := subject.resolver_answers
  constructor
  · intro key state
    rw [hresolver key state]
    exact ⟨value_of_not_accepted, value_eq_none_iff, fun _ => looksUp_of_error⟩
  · intro template mapper state name hkind hname
    rw [mapper.expand_eq_textOf] at hname
    cases htext : Expansion.textOf template.text subject.resolver state with
    | error error =>
        rw [htext] at hname
        exact absurd hname (by simp [Except.map])
    | ok text =>
        rw [htext] at hname
        obtain ⟨hanswers, hfilled⟩ := Expansion.textOf_ok hresolver htext
        refine ⟨text, fun key => valueOf? (subject.value key), rfl, (Except.ok.inj hname).symm,
          hfilled, ?_⟩
        intro key hkey
        obtain ⟨value?, hvalue⟩ := hanswers key hkey
        have haccepts : subject.kind.accepts key = true := by
          rw [← hkind]
          exact Template.accepts_of_mem_keys hkey
        constructor
        · intro later
          simp only [hresolver key later, hvalue, valueOf?]
        · rw [← value_eq_none_iff haccepts]
          simp [hvalue, valueOf?]

namespace Clip

def template : Template :=
  ⟨"$\x7bcontainername\x7d/$\x7bAssetName\x7d", .asset, by decide +kernel⟩

def subject : Subject :=
  .asset { name := "Clip" } ⟨fun _ => []⟩

end Clip

/-- The token of the container stays, whatever its letter case, and the other one is replaced. -/
theorem clip_keeps_container_token :
    Clip.template.kind = Clip.subject.kind ∧
      ∃ (text : List Char) (value? : String → Option String),
        Expansion.textOf Clip.template.text Clip.subject.resolver [] = .ok text ∧
        "a$\x7bcontainername\x7d/clip" = ResourceName.sanitize (String.ofList text) ∧
        text = (Piece.ofText Clip.template.text.toList).flatMap (Piece.filledBy value?) ∧
        value? "containername" = none ∧ value? "AssetName" ≠ none := by
  have hkind : Clip.template.kind = Clip.subject.kind := rfl
  have hname : (Mapper.new.expand Clip.template.text Clip.subject.resolver []).1.1 =
      .ok "a$\x7bcontainername\x7d/clip" := by
    decide +kernel
  have hkeys : Piece.keys (Piece.ofText Clip.template.text.toList) =
      ["containername", "AssetName"] := by
    rw [← Piece.keys_ofText]
    decide +kernel
  obtain ⟨_, hleft⟩ := Subject.tokens_left_are_open Clip.subject
  obtain ⟨text, value?, htext, hsanitized, hfilled, hvalues⟩ :=
    hleft Clip.template Mapper.new [] _ hkind hname
  rw [hkeys] at hvalues
  refine ⟨hkind, text, value?, htext, hsanitized, hfilled, ?_, ?_⟩
  · rw [(hvalues "containername" (by simp)).2]
    exact ⟨by decide +kernel, rfl⟩
  · rw [Ne, (hvalues "AssetName" (by simp)).2]
    rintro ⟨hsame, _⟩
    exact absurd hsame (by decide +kernel)

end MediaMigration
