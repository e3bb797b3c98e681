import MediaMigration.Proofs.BlobStore.AlignedPlaces
import MediaMigration.Proofs.Resource.Fields

/-!
# Identifiers keep places apart

All identifiers are written in the same grouping, so they are aligned, and so are the texts of a
template filled in with the one or the other. A template that names the identifier
therefore gives different places to assets of different identifiers, and different names to content
keys, unless their names are cut.
-/

namespace MediaMigration

open ResourceName

/-! ## Written identifiers -/

namespace Uuid

theorem hexDigit_mem_variants (value : Fin 16) : Text.hexDigit value ∈ variants := by
  revert value
  decide +kernel

theorem hexDigit_ne_hyphen (value : Fin 16) : Text.hexDigit value ≠ '-' := by
  revert value
  decide +kernel

theorem hexDigit_injective : Function.Injective Text.hexDigit := by
  intro value other h
  have hread := congrArg Text.hexValue? h
  rw [Text.hexValue?_hexDigit, Text.hexValue?_hexDigit] at hread
  exact Option.some.inj hread

theorem toChars_aligned (id other : Uuid) : Aligned id.toChars other.toChars := by
  have hdigits : Aligned (id.digits.map Text.hexDigit) (other.digits.map Text.hexDigit) := by
    rw [Aligned, List.forall₂_map_left_iff, List.forall₂_map_right_iff, List.forall₂_iff_get]
    refine ⟨id.length_eq.trans other.length_eq.symm, fun i _ _ => ?_⟩
    exact .inr ⟨hexDigit_mem_variants _, hexDigit_mem_variants _⟩
  have hgroup : ∀ start count : Nat,
      Aligned (((id.digits.map Text.hexDigit).drop start).take count)
        (((other.digits.map Text.hexDigit).drop start).take count) :=
    fun start count => List.forall₂_take count (List.forall₂_drop start hdigits)
  have hyphen : Aligned ['-'] ['-'] := Aligned.refl _
  have hall := (hgroup 0 8).append (hyphen.append ((hgroup 8 4).append (hyphen.append
    ((hgroup 12 4).append (hyphen.append ((hgroup 16 4).append (hyphen.append
      (List.forall₂_drop 20 hdigits))))))))
  simpa [toChars] using hall

theorem filter_toChars (id : Uuid) :
    id.toChars.filter (fun c => c != '-') = id.digits.map Text.hexDigit := by
  have hgroups : ∀ written : List Char, written.take 8 ++ ((written.drop 8).take 4 ++
      ((written.drop 12).take 4 ++ ((written.drop 16).take 4 ++ written.drop 20))) = written := by
    intro written
    have hgroup : ∀ start count : Nat,
        (written.drop start).take count ++ written.drop (start + count) = written.drop start := by
      intro start count
      rw [← List.drop_drop, List.take_append_drop]
    rw [hgroup 16 4, hgroup 12 4, hgroup 8 4, List.take_append_drop]
  have hhyphenless : ∀ c ∈ id.digits.map Text.hexDigit, (c != '-') = true := by
    intro c hc
    obtain ⟨value, _, rfl⟩ := List.mem_map.mp hc
    simpa using hexDigit_ne_hyphen value
  rw [toChars]
  generalize id.digits.map Text.hexDigit = written at hhyphenless
  calc _ = (written.take 8 ++ ((written.drop 8).take 4 ++ ((written.drop 12).take 4 ++
          ((written.drop 16).take 4 ++ written.drop 20)))).filter fun c => c != '-' := by simp
    _ = written.filter fun c => c != '-' := by rw [hgroups]
    _ = written := List.filter_eq_self.mpr hhyphenless

theorem toString_injective : Function.Injective toString := by
  intro id other h
  have hchars : id.toChars = other.toChars := String.ofList_inj.mp h
  have hdigits : id.digits = other.digits := by
    refine List.map_injective_iff.mpr hexDigit_injective ?_
    rw [← filter_toChars, hchars, filter_toChars]
  cases id
  cases other
  cases hdigits
  rfl

end Uuid

/-! ## Texts filled in for two identifiers -/

/-- The same answer, or two written identifiers. -/
def AgreeButForIds (answer other : Except MigrationError (Option String)) : Prop :=
  answer = other ∨
    ∃ id otherId : Uuid, answer = .ok (some id.toString) ∧ other = .ok (some otherId.toString)

namespace Piece

variable {value? other? : String → Option String}

theorem filledBy_aligned (piece : Piece)
    (h : ∀ key, value? key = other? key ∨
      ∃ id otherId : Uuid, value? key = some id.toString ∧ other? key = some otherId.toString) :
    Aligned (filledBy value? piece) (filledBy other? piece) := by
  cases piece with
  | literal c => exact Aligned.refl _
  | token key =>
      rw [filledBy, filledBy]
      rcases h (String.ofList key) with hsame | ⟨id, otherId, hvalue, hother⟩
      · rw [hsame]
        exact Aligned.refl _
      · rw [hvalue, hother]
        simpa [Uuid.toString] using Uuid.toChars_aligned id otherId

/-- Values that are the same but for identifiers give aligned texts, and the same text only if they
agree on all keys. -/
theorem flatMap_filledBy_aligned (pieces : List Piece)
    (h : ∀ key, value? key = other? key ∨
      ∃ id otherId : Uuid, value? key = some id.toString ∧ other? key = some otherId.toString) :
    Aligned (pieces.flatMap (filledBy value?)) (pieces.flatMap (filledBy other?)) ∧
      (pieces.flatMap (filledBy value?) = pieces.flatMap (filledBy other?) →
        ∀ key ∈ keys pieces, value? key = other? key) := by
  induction pieces with
  | nil => exact ⟨.nil, fun _ key hkey => absurd hkey (by simp [keys])⟩
  | cons piece rest ih =>
      have hpiece := filledBy_aligned piece h
      refine ⟨hpiece.append ih.1, fun heq => ?_⟩
      obtain ⟨hhead, htail⟩ := hpiece.append_inj heq
      cases piece with
      | literal c => exact ih.2 htail
      | token key =>
          intro other hother
          rcases List.mem_cons.mp hother with rfl | hrest
          · rcases h (String.ofList key) with hsame | ⟨id, otherId, hvalue, hother⟩
            · exact hsame
            · rw [filledBy, filledBy, hvalue, hother] at hhead
              rw [hvalue, hother, String.toList_injective hhead]
          · exact ih.2 htail other hrest

end Piece

namespace Expansion

variable {σ τ : Type} {resolver : Resolver σ} {otherResolver : Resolver τ}
  {answer otherAnswer : String → Except MigrationError (Option String)} {template : String}

/-- Texts of one template are aligned if the answers agree but for identifiers, and differ if the
answers to a key of the template do. -/
theorem textOf_aligned (hresolver : resolver.Says answer) (hother : otherResolver.Says otherAnswer)
    (hagree : ∀ key, AgreeButForIds (answer key) (otherAnswer key)) {state : σ} {otherState : τ}
    {text otherText : List Char} (htext : textOf template resolver state = .ok text)
    (hotherText : textOf template otherResolver otherState = .ok otherText) :
    Aligned text otherText ∧
      ∀ placeholder ∈ Placeholder.scan template,
        answer placeholder.key ≠ otherAnswer placeholder.key → text ≠ otherText := by
  obtain ⟨hanswers, rfl⟩ := textOf_ok hresolver htext
  obtain ⟨hotherAnswers, rfl⟩ := textOf_ok hother hotherText
  have hvalues : ∀ key, valueOf? (answer key) = valueOf? (otherAnswer key) ∨
      ∃ id otherId : Uuid, valueOf? (answer key) = some id.toString ∧
        valueOf? (otherAnswer key) = some otherId.toString := by
    intro key
    rcases hagree key with hsame | ⟨id, otherId, hanswer, hotherAnswer⟩
    · exact .inl (by rw [hsame])
    · exact .inr ⟨id, otherId, by rw [hanswer]; rfl, by rw [hotherAnswer]; rfl⟩
  obtain ⟨haligned, hinjective⟩ :=
    Piece.flatMap_filledBy_aligned (Piece.ofText template.toList) hvalues
  refine ⟨haligned, fun placeholder hplaceholder hdiffer hsame => hdiffer ?_⟩
  have hkey : placeholder.key ∈ Piece.keys (Piece.ofText template.toList) := by
    rw [← Piece.keys_ofText]
    exact List.mem_map_of_mem hplaceholder
  have hread := hinjective hsame placeholder.key hkey
  obtain ⟨value?, hvalue⟩ := hanswers _ hkey
  obtain ⟨otherValue?, hotherValue⟩ := hotherAnswers _ hkey
  rw [hvalue, hotherValue] at hread ⊢
  exact congrArg _ hread

end Expansion

/-! ## Resources that differ in the identifier -/

/-- Two assets that differ in nothing but their identifiers as they are written, and whose streaming
URLs are looked up with the same result. -/
structure Asset.DiffersInId (asset other : Asset) (source otherSource : LocatorSource) : Prop where
  name_eq : asset.name = other.name
  container_eq : asset.container = other.container
  alternateId_eq : asset.alternateId = other.alternateId
  written_ne : (asset.id.getD .zero).toString ≠ (other.id.getD .zero).toString
  url_eq : (source.streamingUrl asset).1 = (otherSource.streamingUrl other).1

structure ContentKey.DiffersInId (key other : ContentKey) : Prop where
  policyName_eq : key.policyName = other.policyName
  id_ne : key.id ≠ other.id

theorem Asset.DiffersInId.agree {asset other : Asset} {source otherSource : LocatorSource}
    (h : asset.DiffersInId other source otherSource) (key : String) :
    AgreeButForIds ((Subject.asset asset source).value key)
      ((Subject.asset other otherSource).value key) := by
  rw [Subject.value, Subject.value, Asset.value, Asset.value]
  cases AssetField.parse? key with
  | none => exact .inl rfl
  | some field =>
      cases field with
      | assetId => exact .inr ⟨_, _, rfl, rfl⟩
      | assetName => exact .inl (by simp only [h.name_eq])
      | alternateId => exact .inl (by simp only [h.alternateId_eq, h.name_eq])
      | containerName => exact .inl (by simp only [h.container_eq])
      | streamingUrl =>
          refine .inl ?_
          have hurl := h.url_eq
          revert hurl
          cases source.streamingUrl asset with
          | mk answer calls =>
              cases otherSource.streamingUrl other with
              | mk otherAnswer otherCalls =>
                  intro hurl
                  cases hurl
                  cases answer <;> rfl

theorem ContentKey.DiffersInId.agree {key other : ContentKey} (h : key.DiffersInId other)
    (templateKey : String) :
    AgreeButForIds ((Subject.key key).value templateKey)
      ((Subject.key other).value templateKey) := by
  rw [Subject.value, Subject.value, ContentKey.value?, ContentKey.value?]
  cases KeyField.parse? templateKey with
  | none => exact .inl rfl
  | some field =>
      cases field with
      | keyId => exact .inr ⟨_, _, rfl, rfl⟩
      | policyName => exact .inl (by simp only [h.policyName_eq])

/-- If a template names the identifier of assets, two assets that differ in nothing else are
put at different places, and no blobs of theirs share a path in any store. If a template names the
identifier of content keys, two keys that differ in nothing else have different names. Both hold
unless a name is cut. -/
theorem identifiers_keep_apart :
    (∀ {asset other : Asset} {source otherSource : LocatorSource} {template : String}
        {text otherText : List Char},
      asset.DiffersInId other source otherSource →
      (∃ placeholder ∈ Placeholder.scan template,
        AssetField.parse? placeholder.key = some .assetId) →
      Expansion.textOf template (asset.resolver source) [] = .ok text → ¬ IsCut text →
      Expansion.textOf template (other.resolver otherSource) [] = .ok otherText →
      ¬ IsCut otherText →
      ∀ mapper otherMapper : Mapper, ∃ placement otherPlacement,
        (mapper.expandAsset asset source template).1.1 = .ok placement ∧
        (otherMapper.expandAsset other otherSource template).1.1 = .ok otherPlacement ∧
        placement ≠ otherPlacement ∧
        ∀ (store : BlobStore) (name otherName : String), BlobStore.isPlainName name = true →
          BlobStore.isPlainName otherName = true →
          ∃ path otherPath,
            store.blobPath placement.container (placement.blobName name) = .ok path ∧
            store.blobPath otherPlacement.container (otherPlacement.blobName otherName) =
              .ok otherPath ∧
            path.components ≠ otherPath.components) ∧
    (∀ {key other : ContentKey} {template : String} {text otherText : List Char},
      key.DiffersInId other →
      (∃ placeholder ∈ Placeholder.scan template,
        KeyField.parse? placeholder.key = some .keyId) →
      Expansion.textOf template key.resolver () = .ok text → ¬ IsCut text →
      Expansion.textOf template other.resolver () = .ok otherText → ¬ IsCut otherText →
      ∀ mapper otherMapper : Mapper, ∃ name otherName,
        (mapper.expandKey key (some template)).1 = .ok name ∧
        (otherMapper.expandKey other (some template)).1 = .ok otherName ∧ name ≠ otherName) := by
  constructor
  · intro asset other source otherSource template text otherText hdiffers htoken htext hcut
      hotherText hotherCut mapper otherMapper
    obtain ⟨placeholder, hplaceholder, hfield⟩ := htoken
    obtain ⟨haligned, hne⟩ := Expansion.textOf_aligned (Subject.asset asset source).resolver_answers
      (Subject.asset other otherSource).resolver_answers hdiffers.agree htext hotherText
    have htexts : text ≠ otherText := by
      refine hne placeholder hplaceholder fun hsame => hdiffers.written_ne ?_
      simpa [Subject.value, Asset.value, hfield] using hsame
    obtain ⟨hplacements, hpaths⟩ := BlobStore.places_apart haligned htexts hcut hotherCut
    refine ⟨_, _, ?_, ?_, hplacements, hpaths⟩
    · rw [Mapper.expandAsset, Mapper.expandPlacement_eq, Mapper.expand_eq_textOf, htext]
      rfl
    · rw [Mapper.expandAsset, Mapper.expandPlacement_eq, Mapper.expand_eq_textOf, hotherText]
      rfl
  · intro key other template text otherText hdiffers htoken htext hcut hotherText hotherCut mapper
      otherMapper
    obtain ⟨placeholder, hplaceholder, hfield⟩ := htoken
    obtain ⟨haligned, hne⟩ := Expansion.textOf_aligned (Subject.key key).resolver_answers
      (Subject.key other).resolver_answers hdiffers.agree htext hotherText
    have htexts : text ≠ otherText := by
      refine hne placeholder hplaceholder fun hsame => hdiffers.id_ne ?_
      refine Uuid.toString_injective ?_
      simpa [Subject.value, ContentKey.value?, hfield] using hsame
    have hnames := mt (sanitizeChars_aligned haligned hcut hotherCut).2 htexts
    refine ⟨sanitize (String.ofList text), sanitize (String.ofList otherText), ?_, ?_, ?_⟩
    · simp only [Mapper.expandKey, Mapper.expand_eq_textOf, htext, Except.map]
    · simp only [Mapper.expandKey, Mapper.expand_eq_textOf, hotherText, Except.map]
    · rw [sanitize, sanitize, String.toList_ofList, String.toList_ofList]
      exact mt String.ofList_inj.mp hnames

namespace Twins

def lettered : Uuid :=
  ⟨List.replicate 32 (Fin.last 15), List.length_replicate⟩

/-- The sigma at the end of the name stands in front of the identifier. -/
def word : Asset where
  name := "ΛΟΓΟΣ"

def template : String :=
  "$\x7bAssetName\x7d$\x7bassetid\x7d"

def keyTemplate : String :=
  "$\x7bKeyId\x7d/key"

def source : LocatorSource :=
  ⟨fun _ => []⟩

end Twins

/-- Two assets of one name, whose sigma is lowered to different forms. -/
theorem identifiers_keep_twins_apart :
    (∃ placement otherPlacement,
      (Mapper.new.expandAsset Twins.word Twins.source Twins.template).1.1 =
        .ok placement ∧
      (Mapper.new.expandAsset { Twins.word with id := some Twins.lettered }
        Twins.source Twins.template).1.1 = .ok otherPlacement ∧
      placement ≠ otherPlacement) ∧
    ∃ name otherName,
      (Mapper.new.expandKey { id := .zero } (some Twins.keyTemplate)).1 = .ok name ∧
      (Mapper.new.expandKey { id := Twins.lettered } (some Twins.keyTemplate)).1 =
        .ok otherName ∧ name ≠ otherName := by
  have hassets : Twins.word.DiffersInId { Twins.word with id := some Twins.lettered }
      Twins.source Twins.source :=
    ⟨rfl, rfl, rfl, by decide +kernel, rfl⟩
  have hkeys : (ContentKey.mk .zero none).DiffersInId (ContentKey.mk Twins.lettered none) :=
    ⟨rfl, by decide +kernel⟩
  have htext : Expansion.textOf Twins.template (Twins.word.resolver Twins.source) [] =
      .ok ("ΛΟΓΟΣ" ++ Uuid.zero.toString).toList := by
    decide +kernel
  have hother : Expansion.textOf Twins.template
      (Asset.resolver { Twins.word with id := some Twins.lettered } Twins.source) [] =
      .ok ("ΛΟΓΟΣ" ++ Twins.lettered.toString).toList := by
    decide +kernel
  have hkeyText : Expansion.textOf Twins.keyTemplate (ContentKey.mk .zero none).resolver () =
      .ok (Uuid.zero.toString ++ "/key").toList := by
    decide +kernel
  have hotherKeyText : Expansion.textOf Twins.keyTemplate
      (ContentKey.mk Twins.lettered none).resolver () =
      .ok (Twins.lettered.toString ++ "/key").toList := by
    decide +kernel
  obtain ⟨placement, otherPlacement, hplacement, hotherPlacement, hne, _⟩ :=
    identifiers_keep_apart.1 hassets (by decide +kernel) htext (by decide +kernel) hother
      (by decide +kernel) Mapper.new Mapper.new
  exact ⟨⟨placement, otherPlacement, hplacement, hotherPlacement, hne⟩,
    identifiers_keep_apart.2 hkeys (by decide +kernel) hkeyText (by decide +kernel) hotherKeyText
      (by decide +kernel) Mapper.new Mapper.new⟩

end MediaMigration
