import MediaMigration.Proofs.Migration.Identifiers

/-!
# Names of content keys

The name of a content key without a template is its identifier as it is written. That is a legal
name already, so making a name of it changes nothing, and the template of the identifier alone gives
the same. The address of a key is expanded for the identifier and for nothing else. It is the name
that the same template gives to the key, unless the template names the policy and the key has one.
-/

namespace MediaMigration

open ResourceName

/-! ## Written identifiers are legal names -/

namespace Uuid

theorem mem_toChars {id : Uuid} {c : Char} (h : c ∈ id.toChars) : c = '-' ∨ c ∈ variants := by
  by_cases hyphen : c = '-'
  · exact .inl hyphen
  · have hdigit : c ∈ id.digits.map Text.hexDigit := by
      rw [← filter_toChars]
      exact List.mem_filter.mpr ⟨h, by simpa using hyphen⟩
    obtain ⟨value, _, rfl⟩ := List.mem_map.mp hdigit
    exact .inr (hexDigit_mem_variants value)

@[simp] theorem length_toChars (id : Uuid) : id.toChars.length = 36 :=
  (toChars_aligned id .zero).length_eq

theorem isHyphen_toChars (id other : Uuid) :
    id.toChars.map isHyphen = other.toChars.map isHyphen := by
  rw [← List.forall₂_eq_eq_eq, List.forall₂_map_left_iff, List.forall₂_map_right_iff]
  exact (toChars_aligned id other).imp fun _ _ h => h.test_eq not_isHyphen_of_mem_variants

theorem isClean_of_mem_toChars {id : Uuid} {c : Char} (h : c ∈ id.toChars) : IsClean c := by
  have hseparators : ∀ v ∈ variants, v ∉ separators := forall_mem_of_all (by decide)
  rcases mem_toChars h with rfl | hvariant
  · exact ⟨⟨by decide, by decide⟩, by decide⟩
  · exact ⟨isSettled_of_mem_variants c hvariant, hseparators c hvariant⟩

theorem starts_alphanumeric (id : Uuid) :
    ∃ c rest, id.toChars = c :: rest ∧ Unicode.isAlphanumeric c = true := by
  have haligned := toChars_aligned id .zero
  have hzero : ∃ rest, Uuid.zero.toChars = '0' :: rest := ⟨_, rfl⟩
  obtain ⟨zeros, hzeros⟩ := hzero
  rw [hzeros] at haligned
  cases hchars : id.toChars with
  | nil =>
      rw [hchars] at haligned
      cases haligned
  | cons c rest =>
      rw [hchars] at haligned
      cases haligned with
      | cons halike _ =>
          refine ⟨c, rest, rfl, ?_⟩
          rw [halike.test_eq isAlphanumeric_of_mem_variants]
          decide

theorem no_hyphen_at_end (id : Uuid) : id.toChars.getLast? ≠ some '-' := by
  intro h
  have hlast := congrArg List.getLast? (isHyphen_toChars id .zero)
  rw [List.getLast?_map, h] at hlast
  exact absurd hlast (by decide)

theorem isChain_toChars (id : Uuid) : id.toChars.IsChain Apart := by
  have hzero : (Uuid.zero.toChars.map isHyphen).IsChain fun first second =>
      ¬ (first = true ∧ second = true) := by decide
  rw [← isHyphen_toChars id, List.isChain_map] at hzero
  exact hzero.imp fun c d hapart hboth => hapart ⟨by rw [hboth.1]; rfl, by rw [hboth.2]; rfl⟩

theorem isLegal_toString (id : Uuid) : IsLegal id.toString := by
  have hchars : id.toString.toList = id.toChars := String.toList_ofList
  have hlength : id.toString.length = 36 := by
    rw [← String.length_toList, hchars, length_toChars]
  refine ⟨by omega, by omega, ?_, ?_, ?_, ?_, ?_⟩
  all_goals rw [hchars]
  · exact id.starts_alphanumeric
  · exact id.no_hyphen_at_end
  · exact isChain_apart_iff.mp id.isChain_toChars
  · exact fun c hc => (isClean_of_mem_toChars hc).2
  · exact Unicode.lowercase_of_isSettled fun c hc => (isClean_of_mem_toChars hc).1

end Uuid

/-! ## Templates filled in without look-ups -/

namespace Piece

variable {value? other? : String → Option String}

/-- The text of a template with what a function gives for its keys. -/
def filledText (value? : String → Option String) (template : String) : List Char :=
  (ofText template.toList).flatMap (filledBy value?)

theorem mem_keys_iff {pieces : List Piece} {name : String} :
    name ∈ keys pieces ↔ ∃ key, token key ∈ pieces ∧ String.ofList key = name := by
  induction pieces with
  | nil => simp [keys]
  | cons piece rest ih =>
      cases piece with
      | literal c => simp [keys, ih]
      | token other => simp [keys, ih, eq_comm, or_and_right, exists_or]

/-- Only what is given for the keys of a template matters. -/
theorem filledText_congr {template : String}
    (h : ∀ placeholder ∈ Placeholder.scan template,
      value? placeholder.key = other? placeholder.key) :
    filledText value? template = filledText other? template := by
  refine List.flatMap_congr fun piece hpiece => ?_
  cases piece with
  | literal c => rfl
  | token key =>
      have hkey := mem_keys_iff.mpr ⟨key, hpiece, rfl⟩
      rw [← keys_ofText] at hkey
      obtain ⟨placeholder, hplaceholder, hsame⟩ := List.mem_map.mp hkey
      have hvalue := h placeholder hplaceholder
      rw [hsame] at hvalue
      rw [filledBy, filledBy, hvalue]

end Piece

theorem Expansion.textOf_ofFunction (value? : String → Option String) (template : String) :
    textOf template (.ofFunction value?) () = .ok (Piece.filledText value? template) := by
  have hanswers : (Resolver.ofFunction value?).Says fun key => .ok (value? key) := fun _ _ => rfl
  rcases textOf_cases hanswers template () with ⟨_, htext⟩ | ⟨key, _, error, herror, _⟩
  · exact htext
  · exact absurd herror (by simp)

namespace Mapper

variable (mapper : Mapper)

theorem expandKey_template (key : ContentKey) (template : String) :
    (mapper.expandKey key (some template)).1 =
      .ok (sanitize (String.ofList (Piece.filledText key.value? template))) := by
  have htext := Expansion.textOf_ofFunction key.value? template
  simp only [expandKey, expand_eq_textOf, ContentKey.resolver, htext, Except.map]

theorem expandKeyAddress_template (template keyId : String) :
    (mapper.expandKeyAddress template keyId).1 =
      .ok (sanitize (String.ofList (Piece.filledText (keyAddressValue? keyId) template))) := by
  have htext := Expansion.textOf_ofFunction (keyAddressValue? keyId) template
  simp only [expandKeyAddress, expand_eq_textOf, keyAddressResolver, htext, Except.map]

end Mapper

/-! ## Two ways to a name -/

namespace ContentKey

def idTemplate : String :=
  "$\x7bKeyId\x7d"

theorem filledText_idTemplate (key : ContentKey) :
    Piece.filledText key.value? idTemplate = key.id.toChars := by
  have hwritten : idTemplate.toList = (Piece.token "KeyId".toList).written ++ [] := by decide
  have hpieces : Piece.ofText idTemplate.toList = [.token "KeyId".toList] := by
    rw [hwritten, Piece.ofText_token (by decide) (forall_mem_of_all (by decide)), Piece.ofText]
  have hvalue : key.value? (String.ofList "KeyId".toList) = some key.id.toString := by
    have hfield : KeyField.parse? (String.ofList "KeyId".toList) = some .keyId := by decide
    rw [value?, hfield]
  rw [Piece.filledText, hpieces, List.flatMap_singleton, Piece.filledBy, hvalue]
  exact String.toList_ofList

/-- The address of a key knows the values of its fields but for the policy. -/
theorem keyAddressValue?_eq {key : ContentKey} {name : String}
    (h : Text.equalIgnoringCase name "PolicyName" = false ∨ key.policyName = none) :
    keyAddressValue? key.id.toString name = key.value? name := by
  rw [keyAddressValue?, value?]
  cases hfield : KeyField.parse? name with
  | none => rfl
  | some field =>
      cases field with
      | keyId => rfl
      | policyName =>
          have hname : Text.equalIgnoringCase name "PolicyName" = true :=
            KeyField.parse?_eq_some_iff.mp hfield
          rcases h with hother | hnone
          · rw [hname] at hother
            exact absurd hother (by simp)
          · exact hnone.symm

/-- A content key without a template has the name that the template of its identifier gives to it:
the identifier as it is written, of which nothing changes when a name is made of it. And a template
makes the address of a key what it makes its name, unless it names a policy and the key has one. -/
theorem shortcuts_agree (key : ContentKey) (mapper otherMapper : Mapper) :
    ((mapper.expandKey key none).1 = (otherMapper.expandKey key (some idTemplate)).1 ∧
      sanitize key.id.toString = key.id.toString) ∧
    ∀ template,
      ((∀ placeholder ∈ Placeholder.scan template,
          Text.equalIgnoringCase placeholder.key "PolicyName" = false) ∨ key.policyName = none) →
      (mapper.expandKeyAddress template key.id.toString).1 =
        (otherMapper.expandKey key (some template)).1 := by
  have hfixed : sanitize key.id.toString = key.id.toString :=
    sanitize_of_isLegal key.id.isLegal_toString
  refine ⟨⟨?_, hfixed⟩, fun template h => ?_⟩
  · have hname : String.ofList key.id.toChars = key.id.toString := rfl
    rw [otherMapper.expandKey_template, filledText_idTemplate, hname, hfixed]
    rfl
  · rw [mapper.expandKeyAddress_template, otherMapper.expandKey_template]
    rw [Piece.filledText_congr fun placeholder hplaceholder => keyAddressValue?_eq ?_]
    rcases h with hother | hnone
    · exact .inl (hother placeholder hplaceholder)
    · exact .inr hnone

namespace Drm

def key : ContentKey where
  id := Twins.lettered
  policyName := some "DRM"

/-- A template with an unknown key, which stays in the text. -/
def template : String :=
  "Keys_$\x7bOther\x7d.$\x7bKEYID\x7d"

def policyTemplate : String :=
  "$\x7bPolicyName\x7d-key"

end Drm

/-- A key with a policy has one name by both ways if the template does not name the policy, and a
key without one if it does. -/
theorem shortcuts_agree_on_drm :
    ((∀ placeholder ∈ Placeholder.scan Drm.template,
        Text.equalIgnoringCase placeholder.key "PolicyName" = false) ∧
      (Mapper.new.expandKeyAddress Drm.template Drm.key.id.toString).1 =
        (Mapper.new.expandKey Drm.key (some Drm.template)).1 ∧
      (Mapper.new.expandKey Drm.key (some Drm.template)).1 =
        .ok "keys-$\x7bother\x7d-ffffffff-ffff-ffff-ffff-ffffffffffff") ∧
    (Mapper.new.expandKeyAddress Drm.policyTemplate Uuid.zero.toString).1 =
        (Mapper.new.expandKey { id := .zero } (some Drm.policyTemplate)).1 ∧
      (Mapper.new.expandKeyAddress Drm.policyTemplate Drm.key.id.toString).1 ≠
        (Mapper.new.expandKey Drm.key (some Drm.policyTemplate)).1 := by
  have hother : ∀ placeholder ∈ Placeholder.scan Drm.template,
      Text.equalIgnoringCase placeholder.key "PolicyName" = false := by
    decide +kernel
  have hkey := shortcuts_agree Drm.key Mapper.new Mapper.new
  have hopen := shortcuts_agree { id := .zero } Mapper.new Mapper.new
  exact ⟨⟨hother, hkey.2 Drm.template (.inl hother), by decide +kernel⟩,
    hopen.2 Drm.policyTemplate (.inr rfl), by decide +kernel⟩

end ContentKey

end MediaMigration
