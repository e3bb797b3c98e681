import MediaMigration.Proofs.Migration.Attempt
import MediaMigration.Proofs.Resource.KeyNames
import MediaMigration.Proofs.ResourceName.InsertedName

/-!
# Addresses of content keys

The address of a content key is a name, and a name has at most sixty-three characters. The text in
front of the identifier takes up some of them, and the cut leaves what there is room for of the
identifier. Two keys have different addresses exactly if their identifiers differ in that. With room
for thirty-six characters the whole identifier is in the address. Without any room nothing of it is
left, and all that it can bring about is the form of a capital sigma in front of it.
-/

namespace MediaMigration

open ResourceName

/-! ## What stands in front of an identifier -/

namespace Uuid

variable {id other : Uuid}

def startsWithLetter (id : Uuid) : Bool :=
  id.toChars.head?.any Unicode.isCased

@[simp] theorem toList_toString (id : Uuid) : id.toString.toList = id.toChars :=
  String.toList_ofList

theorem first_spec (id : Uuid) :
    ∃ c rest, id.toChars = c :: rest ∧ Unicode.isCaseIgnorable c = false ∧
      Unicode.isCased c = id.startsWithLetter := by
  have hvariants : ∀ v ∈ variants, Unicode.isCaseIgnorable v = false :=
    forall_mem_of_all (by decide +kernel)
  obtain ⟨c, rest, hchars, hc⟩ := id.starts_alphanumeric
  have hmem : c ∈ id.toChars := by
    rw [hchars]
    exact List.mem_cons_self
  refine ⟨c, rest, hchars, ?_, by rw [startsWithLetter, hchars]; rfl⟩
  rcases mem_toChars hmem with rfl | hvariant
  · exact absurd rfl (ne_mark_of_alphanumeric hc '-' (by decide))
  · exact hvariants c hvariant

/-- Identifiers are told apart in front of them by a capital sigma alone, and only by whether they
start with a letter. -/
theorem lowercaseWithin_eq {text : List Char}
    (h : 'Σ' ∉ text ∨ id.startsWithLetter = other.startsWithLetter)
    (behind otherBehind : List Char) :
    Unicode.lowercaseWithin [] text (id.toChars ++ behind) =
      Unicode.lowercaseWithin [] text (other.toChars ++ otherBehind) := by
  rcases h with hsigma | hletter
  · exact Unicode.lowercaseWithin_of_no_sigma hsigma _ _ _ _
  · obtain ⟨c, rest, hchars, hc, hcased⟩ := id.first_spec
    obtain ⟨d, otherRest, hother, hd, hotherCased⟩ := other.first_spec
    rw [hchars, hother, List.cons_append, List.cons_append]
    exact Unicode.lowercaseWithin_congr hc hd (by rw [hcased, hletter, hotherCased]) _ _ _ _

theorem startsWithLetter_congr {room : Nat} (hroom : 0 < room)
    (h : id.toChars.take room = other.toChars.take room) :
    id.startsWithLetter = other.startsWithLetter := by
  have hhead := congrArg List.head? h
  rw [List.head?_take, List.head?_take, if_neg (Nat.ne_of_gt hroom),
    if_neg (Nat.ne_of_gt hroom)] at hhead
  rw [startsWithLetter, startsWithLetter, hhead]

end Uuid

/-! ## Where the identifier stands -/

/-- Does a key name the identifier of a content key? -/
def namesKeyId (key : String) : Bool :=
  Text.equalIgnoringCase key "KeyId"

theorem keyAddressValue?_eq_ite (keyId key : String) :
    keyAddressValue? keyId key = if namesKeyId key then some keyId else none := by
  have hname : KeyField.parse? key = some .keyId ↔ namesKeyId key = true :=
    KeyField.parse?_eq_some_iff
  rw [keyAddressValue?]
  cases hfield : KeyField.parse? key with
  | none => rw [if_neg fun h => absurd (hname.mpr h) (by simp [hfield])]
  | some field =>
      cases field with
      | keyId => rw [if_pos (hname.mp hfield)]
      | policyName => rw [if_neg fun h => absurd (hname.mpr h) (by simp [hfield])]

def Piece.isKeyId : Piece → Bool
  | literal _ => false
  | token key => namesKeyId (String.ofList key)

theorem Piece.filledBy_keyAddressValue? (keyId : String) (piece : Piece) :
    piece.filledBy (keyAddressValue? keyId) =
      if piece.isKeyId then keyId.toList else piece.written := by
  cases piece with
  | literal c => rfl
  | token key =>
      rw [filledBy, keyAddressValue?_eq_ite, isKeyId]
      cases namesKeyId (String.ofList key) <;> rfl

/-- The text of a template in front of the first token of the identifier. -/
def frontOfKeyId (template : String) : List Char :=
  Piece.writtenAll ((Piece.ofText template.toList).takeWhile fun piece => !piece.isKeyId)

/-- How many characters of an identifier the cut leaves in the address of a key. -/
def roomForKeyId (template : String) : Nat :=
  roomBehind (frontOfKeyId template)

/-- The text of an address is a front, the identifier, and pieces behind it. -/
theorem exists_behind_frontOfKeyId {template : String}
    (h : ∃ placeholder ∈ Placeholder.scan template, namesKeyId placeholder.key = true) :
    ∃ rest : List Piece, ∀ keyId : String,
      Piece.filledText (keyAddressValue? keyId) template =
        frontOfKeyId template ++
          (keyId.toList ++ rest.flatMap (Piece.filledBy (keyAddressValue? keyId))) := by
  let pieces := Piece.ofText template.toList
  let isOther := fun piece : Piece => !piece.isKeyId
  have hsplit : pieces.takeWhile isOther ++ pieces.dropWhile isOther = pieces :=
    List.takeWhile_append_dropWhile
  cases hdrop : pieces.dropWhile isOther with
  | nil =>
      obtain ⟨placeholder, hplaceholder, hname⟩ := h
      have hkey : placeholder.key ∈ Piece.keys pieces := by
        rw [← Piece.keys_ofText]
        exact List.mem_map_of_mem hplaceholder
      obtain ⟨key, htoken, hsame⟩ := Piece.mem_keys_iff.mp hkey
      have hother := List.dropWhile_eq_nil_iff.mp hdrop _ htoken
      simp [isOther, Piece.isKeyId, hsame, hname] at hother
  | cons piece rest =>
      refine ⟨rest, fun keyId => ?_⟩
      have hfront : (pieces.takeWhile isOther).flatMap (Piece.filledBy (keyAddressValue? keyId)) =
          frontOfKeyId template := by
        refine List.flatMap_congr fun piece hpiece => ?_
        have hother : piece.isKeyId = false := by
          simpa [isOther] using List.mem_takeWhile_imp hpiece
        rw [Piece.filledBy_keyAddressValue?, hother]
        rfl
      have hpiece : piece.filledBy (keyAddressValue? keyId) = keyId.toList := by
        have hhead := List.head?_dropWhile_not isOther pieces
        rw [hdrop] at hhead
        have hid : piece.isKeyId = true := by simpa [isOther] using hhead
        rw [Piece.filledBy_keyAddressValue?, hid]
        rfl
      rw [Piece.filledText, ← hfront, ← hpiece, ← List.flatMap_cons, ← List.flatMap_append, ← hdrop,
        hsplit]

/-! ## Addresses -/

/-- The address that a template gives to the key of an identifier. -/
def keyAddressOf (template : String) (id : Uuid) : String :=
  sanitize (String.ofList (Piece.filledText (keyAddressValue? id.toString) template))

variable {template : String} {id other : Uuid}

theorem keyAddressOf_eq (h : ∃ placeholder ∈ Placeholder.scan template,
      namesKeyId placeholder.key = true) :
    ∃ rest : List Piece, ∀ id : Uuid, (keyAddressOf template id).toList =
      sanitizeChars (frontOfKeyId template ++ (id.toString.toList ++
        rest.flatMap (Piece.filledBy (keyAddressValue? id.toString)))) := by
  obtain ⟨rest, htext⟩ := exists_behind_frontOfKeyId h
  refine ⟨rest, fun id => ?_⟩
  rw [keyAddressOf, sanitize, String.toList_ofList, String.toList_ofList, htext]

theorem keyAddressOf_ne_of_room
    (h : ∃ placeholder ∈ Placeholder.scan template, namesKeyId placeholder.key = true)
    (hdiffer : id.toChars.take (roomForKeyId template) ≠
      other.toChars.take (roomForKeyId template)) :
    keyAddressOf template id ≠ keyAddressOf template other := by
  obtain ⟨rest, haddress⟩ := keyAddressOf_eq h
  have hagree : ∀ key, keyAddressValue? id.toString key = keyAddressValue? other.toString key ∨
      ∃ first second : Uuid, keyAddressValue? id.toString key = some first.toString ∧
        keyAddressValue? other.toString key = some second.toString := by
    intro key
    rw [keyAddressValue?_eq_ite, keyAddressValue?_eq_ite]
    cases namesKeyId key with
    | true => exact .inr ⟨id, other, rfl, rfl⟩
    | false => exact .inl rfl
  have hbehind := (Piece.flatMap_filledBy_aligned rest hagree).1
  have hids : Aligned id.toString.toList other.toString.toList := by
    rw [Uuid.toList_toString, Uuid.toList_toString]
    exact Uuid.toChars_aligned id other
  intro hsame
  have hchars := congrArg String.toList hsame
  rw [haddress, haddress] at hchars
  refine sanitizeChars_ne_of_room id.isLegal_toString other.isLegal_toString hids hbehind ?_ hchars
  rwa [Uuid.toList_toString, Uuid.toList_toString]

theorem keyAddressOf_eq_of_room
    (h : ∃ placeholder ∈ Placeholder.scan template, namesKeyId placeholder.key = true)
    (hsame : id.toChars.take (roomForKeyId template) = other.toChars.take (roomForKeyId template))
    (hfront : 'Σ' ∉ frontOfKeyId template ∨ id.startsWithLetter = other.startsWithLetter) :
    keyAddressOf template id = keyAddressOf template other := by
  rcases Nat.lt_or_ge (roomForKeyId template) 36 with hroom | hroom
  · obtain ⟨rest, haddress⟩ := keyAddressOf_eq h
    have hlength : ∀ id : Uuid, roomBehind (frontOfKeyId template) ≤ id.toString.toList.length := by
      intro id
      rw [Uuid.toList_toString, Uuid.length_toChars]
      exact Nat.le_of_lt hroom
    have hsigma := hfront.imp_left fun hnone hsigma =>
      hnone (mem_of_mem_stripped hsigma (by decide))
    refine String.toList_injective ?_
    rw [haddress, haddress]
    refine sanitizeChars_eq_of_room id.isLegal_toString other.isLegal_toString (hlength id)
      (hlength other) ?_ ?_
    · rwa [Uuid.toList_toString, Uuid.toList_toString]
    · rw [Uuid.toList_toString, Uuid.toList_toString]
      exact Uuid.lowercaseWithin_eq hsigma _ _
  · rw [List.take_of_length_le (by rw [Uuid.length_toChars]; exact hroom),
      List.take_of_length_le (by rw [Uuid.length_toChars]; exact hroom)] at hsame
    rw [Uuid.toString_injective (congrArg String.ofList hsame)]

namespace Migration

/-- No key fails, and each has the address that the template gives to it. -/
theorem mapKey_address {migration : Migration} {accepted : Template}
    (h : migration.templates.keyAddress = some accepted) (key : ContentKey) (session : Session) :
    ∃ name, (migration.mapKey key session).1 =
      .ok ⟨key.id, name, some (keyAddressOf accepted.text key.id)⟩ := by
  have hname : ∃ name,
      (session.mapper.expandKey key (migration.templates.key.map Template.text)).1 = .ok name := by
    cases migration.templates.key with
    | none => exact ⟨_, rfl⟩
    | some named => exact ⟨_, session.mapper.expandKey_template key named.text⟩
  obtain ⟨name, hname⟩ := hname
  refine ⟨name, ?_⟩
  revert hname
  rw [mapKey]
  cases session.mapper.expandKey key (migration.templates.key.map Template.text) with
  | mk answer mapper =>
      rintro rfl
      have haddress := mapper.expandKeyAddress_template accepted.text key.id.toString
      revert haddress
      simp only [h]
      cases mapper.expandKeyAddress accepted.text key.id.toString with
      | mk otherAnswer last =>
          rintro rfl
          rfl

theorem key_of_report {migration : Migration} {mode : Mode} {manifest : Manifest}
    {session : Session} {report : UnitReport KeyMapping}
    (h : report ∈ (migration.execute mode manifest session).1.keys) :
    ∃ key ∈ manifest.keys, ∃ middle, report.unit = key.id.toString ∧
      report.outcome = (migration.mapKey key middle).1 := by
  rcases keys_execute migration mode manifest session with hnone | ⟨middle, hkeys⟩
  · rw [hnone] at h
    exact absurd h List.not_mem_nil
  · rw [hkeys] at h
    obtain ⟨index, hindex⟩ := List.mem_iff_getElem?.mp h
    obtain ⟨key, hkey, hunit, houtcome, _⟩ := attempt_entry hindex
    exact ⟨key, List.mem_of_getElem? hkey, _, hunit, houtcome⟩

end Migration

/-- A migration reports every key with the address that the template of addresses gives to its
identifier. If the template names the identifier, and the text in front of it leaves room for all of
it, keys of different identifiers have different addresses. With less room they have different
addresses exactly if their identifiers differ in the characters that there is room for. Without any
room the addresses are the same, unless a capital sigma stands in front, and one of the identifiers
starts with a letter and the other one does not. -/
theorem key_addresses_tell_apart_what_fits {template : String}
    (htoken : ∃ placeholder ∈ Placeholder.scan template, namesKeyId placeholder.key = true) :
    let room := roomForKeyId template
    (∀ (mapper : Mapper) (id : Uuid),
      (mapper.expandKeyAddress template id.toString).1 = .ok (keyAddressOf template id)) ∧
    (∀ (migration : Migration) (accepted : Template),
      migration.templates.keyAddress = some accepted → accepted.text = template →
      ∀ mode manifest session, ∀ report ∈ (migration.execute mode manifest session).1.keys,
        ∃ key ∈ manifest.keys, ∃ name, report.unit = key.id.toString ∧
          report.outcome = .ok ⟨key.id, name, some (keyAddressOf template key.id)⟩) ∧
    ∀ id other : Uuid, id ≠ other →
      (36 ≤ room → keyAddressOf template id ≠ keyAddressOf template other) ∧
      (0 < room → (keyAddressOf template id ≠ keyAddressOf template other ↔
        id.toChars.take room ≠ other.toChars.take room)) ∧
      (room = 0 → 'Σ' ∉ frontOfKeyId template ∨ id.startsWithLetter = other.startsWithLetter →
        keyAddressOf template id = keyAddressOf template other) := by
  intro room
  refine ⟨fun mapper id => mapper.expandKeyAddress_template template id.toString, ?_, ?_⟩
  · rintro migration accepted haccepted rfl mode manifest session report hreport
    obtain ⟨key, hkey, middle, hunit, houtcome⟩ := Migration.key_of_report hreport
    obtain ⟨name, haddress⟩ := Migration.mapKey_address haccepted key middle
    exact ⟨key, hkey, name, hunit, houtcome.trans haddress⟩
  · intro id other hne
    refine ⟨fun hroom => ?_, fun hroom => ⟨?_, keyAddressOf_ne_of_room htoken⟩, ?_⟩
    · refine keyAddressOf_ne_of_room htoken fun hsame => hne ?_
      have hwhole : ∀ id : Uuid, id.toChars.take room = id.toChars := fun id =>
        List.take_of_length_le (by rw [Uuid.length_toChars]; exact hroom)
      rw [hwhole, hwhole] at hsame
      exact Uuid.toString_injective (congrArg String.ofList hsame)
    · intro hdiffer hsame
      exact hdiffer (keyAddressOf_eq_of_room htoken hsame
        (.inr (Uuid.startsWithLetter_congr hroom hsame)))
    · intro hroom hfront
      have hnothing : ∀ id : Uuid, id.toChars.take room = [] := fun id => by
        rw [hroom, List.take_zero]
      exact keyAddressOf_eq_of_room htoken ((hnothing id).trans (hnothing other).symm) hfront

namespace Vault

def narrow : String :=
  "https://vault/media-keys/by-id/$\x7bKeyId\x7d"

def wide : String :=
  "keys/$\x7bkeyid\x7d"

def full : String :=
  String.ofList (List.replicate 63 'v') ++ "$\x7bKeyId\x7d"

def fifteen : Uuid :=
  ⟨Uuid.zero.digits.take 31 ++ [Fin.last 15], rfl⟩

theorem media_accepted (kind : ResourceKind) : Template.firstUnknownKey? "media" kind = none := by
  cases kind <;> decide +kernel

def address : Template :=
  ⟨narrow, .key, by decide +kernel⟩

def setup : Migration :=
  ⟨⟨⟨"media", .asset, media_accepted _⟩, ⟨"media", .container, media_accepted _⟩, none,
    some address⟩, ⟨⟨"store"⟩, false⟩, ⟨"."⟩, none⟩

def twoKeys : Manifest where
  keys := [{ id := .zero }, { id := fifteen }]

def planned : MigrationReport :=
  (setup.execute .plan twoKeys { tree := .empty }).1

end Vault

/-- The identifiers of two keys differ in the last digit, and their addresses do not differ. -/
theorem two_vault_keys_share_an_address :
    (∃ placeholder ∈ Placeholder.scan Vault.narrow, namesKeyId placeholder.key = true) ∧
      Uuid.zero ≠ Vault.fifteen ∧
      (Mapper.new.expandKeyAddress Vault.narrow Uuid.zero.toString).1 =
        (Mapper.new.expandKeyAddress Vault.narrow Vault.fifteen.toString).1 ∧
      Vault.planned.keys.map (fun report => report.target?.bind KeyMapping.address) =
        [some "https-//vault/media-keys/by-id/00000000-0000-0000-0000-00000000",
          some "https-//vault/media-keys/by-id/00000000-0000-0000-0000-00000000"] := by
  have htoken : ∃ placeholder ∈ Placeholder.scan Vault.narrow,
      namesKeyId placeholder.key = true := by decide +kernel
  have hsame : Uuid.zero.toChars.take (roomForKeyId Vault.narrow) =
      Vault.fifteen.toChars.take (roomForKeyId Vault.narrow) := by decide +kernel
  have haddress : keyAddressOf Vault.narrow .zero = keyAddressOf Vault.narrow Vault.fifteen :=
    keyAddressOf_eq_of_room htoken hsame (.inr (by decide +kernel))
  refine ⟨htoken, by decide +kernel, ?_, by decide +kernel⟩
  rw [Mapper.expandKeyAddress_template, Mapper.expandKeyAddress_template]
  exact congrArg Except.ok haddress

/-- Some room is enough for identifiers that differ in the first digit. Those that differ in the
last one take room for all of it, and without room there is one address for all. -/
theorem vault_addresses_tell_apart_what_fits :
    (roomForKeyId Vault.narrow = 32 ∧
      keyAddressOf Vault.narrow .zero ≠ keyAddressOf Vault.narrow Twins.lettered ∧
      keyAddressOf Vault.narrow .zero = keyAddressOf Vault.narrow Vault.fifteen ∧
      ∀ report ∈ Vault.planned.keys, ∃ key ∈ Vault.twoKeys.keys, ∃ name,
        report.outcome = .ok ⟨key.id, name, some (keyAddressOf Vault.narrow key.id)⟩) ∧
    (36 ≤ roomForKeyId Vault.wide ∧
      keyAddressOf Vault.wide .zero ≠ keyAddressOf Vault.wide Vault.fifteen) ∧
    roomForKeyId Vault.full = 0 ∧ 'Σ' ∉ frontOfKeyId Vault.full ∧
      keyAddressOf Vault.full .zero = keyAddressOf Vault.full Twins.lettered := by
  have hroom : roomForKeyId Vault.narrow = 32 := by decide +kernel
  have hall : 36 ≤ roomForKeyId Vault.wide := by decide +kernel
  have hnone : roomForKeyId Vault.full = 0 := by decide +kernel
  have hsigma : 'Σ' ∉ frontOfKeyId Vault.full := by decide +kernel
  have hfifteen : Uuid.zero ≠ Vault.fifteen := by decide +kernel
  have hlettered : Uuid.zero ≠ Twins.lettered := by decide +kernel
  have hnarrowToken : ∃ placeholder ∈ Placeholder.scan Vault.narrow,
      namesKeyId placeholder.key = true := by decide +kernel
  have hwideToken : ∃ placeholder ∈ Placeholder.scan Vault.wide,
      namesKeyId placeholder.key = true := by decide +kernel
  have hfullToken : ∃ placeholder ∈ Placeholder.scan Vault.full,
      namesKeyId placeholder.key = true := by decide +kernel
  obtain ⟨_, hreports, hnarrow⟩ := key_addresses_tell_apart_what_fits hnarrowToken
  obtain ⟨_, _, hwide⟩ := key_addresses_tell_apart_what_fits hwideToken
  obtain ⟨_, _, hfull⟩ := key_addresses_tell_apart_what_fits hfullToken
  rw [hroom] at hnarrow
  refine ⟨⟨hroom, ?_, ?_, fun report hreport => ?_⟩, ⟨hall, (hwide _ _ hfifteen).1 hall⟩,
    hnone, hsigma, (hfull _ _ hlettered).2.2 hnone (.inl hsigma)⟩
  · exact ((hnarrow _ _ hlettered).2.1 (by decide)).mpr (by decide +kernel)
  · have hsame : Uuid.zero.toChars.take 32 = Vault.fifteen.toChars.take 32 := by decide +kernel
    exact not_ne_iff.mp fun hdiffer => ((hnarrow _ _ hfifteen).2.1 (by decide)).mp hdiffer hsame
  · obtain ⟨key, hkey, name, _, houtcome⟩ :=
      hreports Vault.setup Vault.address rfl rfl .plan Vault.twoKeys { tree := .empty } report
        hreport
    exact ⟨key, hkey, name, houtcome⟩

end MediaMigration
