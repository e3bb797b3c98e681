import MediaMigration.Proofs.Resource.Fields
import MediaMigration.Proofs.ResourceName.LetterCase

/-!
# Letter case in templates

Fields are found by their keys whatever the case of the letters, and a token that finds none stays
in the text as it is spelled. Its spelling does not come through: the name is in lower case. So a
template may be compared with the same template with all its ASCII letters in lower case. Their
tokens stand at the same places, are looked up in the same order with the same answers, and leave
texts that differ in the case of letters, if at all.
-/

namespace MediaMigration

namespace Text

def lowered (text : String) : String :=
  String.ofList (text.toList.map Char.toLower)

@[simp] theorem toList_lowered (text : String) :
    (lowered text).toList = text.toList.map Char.toLower :=
  String.toList_ofList

@[simp] theorem lowered_eq_iff {text other : String} :
    lowered text = lowered other ↔ equalIgnoringCase text other = true := by
  rw [equalIgnoringCase_iff, lowered, lowered, String.ofList_inj]

@[simp] theorem equalIgnoringCase_lowered (text : String) :
    equalIgnoringCase (lowered text) text = true := by
  have htwice : Char.toLower ∘ Char.toLower = Char.toLower :=
    funext Char.toLower_toLower_eq_toLower
  rw [equalIgnoringCase_iff, toList_lowered, List.map_map, htwice]

theorem equalIgnoringCase_congr {key other : String} (h : equalIgnoringCase key other = true)
    (name : String) : equalIgnoringCase key name = equalIgnoringCase other name := by
  rw [equalIgnoringCase_iff] at h
  rw [equalIgnoringCase, equalIgnoringCase, h]

end Text

/-! ## Tokens -/

namespace Placeholder

@[simp] theorem isKeyChar_toLower (c : Char) : isKeyChar c.toLower = isKeyChar c := by
  have hcapitals : ∀ c ∈ Text.capitals, isKeyChar c.toLower = isKeyChar c :=
    ResourceName.forall_mem_of_all (by decide)
  exact Text.forall_toLower (fun c d => isKeyChar d = isKeyChar c) (fun _ => rfl) hcapitals c

theorem keyAt?_toLower (text : List Char) :
    keyAt? (text.map Char.toLower) = (keyAt? text).map (List.map Char.toLower) := by
  cases hkey : keyAt? text with
  | some key =>
      obtain ⟨⟨rest, rfl⟩, hne, hchars⟩ := eq_of_keyAt? hkey
      have hlowered : ∀ c ∈ key.map Char.toLower, isKeyChar c = true := by
        intro c hc
        obtain ⟨source, hsource, rfl⟩ := List.mem_map.mp hc
        rw [isKeyChar_toLower, hchars source hsource]
      have hfound := keyAt?_written (mt List.map_eq_nil_iff.mp hne) hlowered
        (rest.map Char.toLower)
      rw [Option.map_some, ← hfound, List.map_cons, List.map_cons, List.map_append, List.map_cons]
      rfl
  | none =>
      refine Option.eq_none_iff_forall_ne_some.mpr fun lowered hlowered => ?_
      -- a token in the lower-cased text was one before
      obtain ⟨⟨rest, hwhole⟩, hne, hchars⟩ := eq_of_keyAt? hlowered
      obtain ⟨c, afterDollar, rfl, hc, hopen⟩ := List.map_eq_cons_iff.mp hwhole
      obtain ⟨d, afterBrace, rfl, hd, hkeyRest⟩ := List.map_eq_cons_iff.mp hopen
      obtain ⟨key, closed, rfl, rfl, hclose⟩ := List.map_eq_append_iff.mp hkeyRest
      obtain ⟨e, tail, rfl, he, _⟩ := List.map_eq_cons_iff.mp hclose
      rw [Text.toLower_eq_iff (by decide)] at hc hd he
      have hkeyChars : ∀ c ∈ key, isKeyChar c = true := fun c hc => by
        rw [← isKeyChar_toLower, hchars _ (List.mem_map_of_mem hc)]
      have hfound := keyAt?_written (mt List.map_eq_nil_iff.mpr hne) hkeyChars tail
      rw [hc, hd, he, hfound] at hkey
      exact absurd hkey (by simp)

end Placeholder

namespace Piece

def lowered : Piece → Piece
  | literal c => literal c.toLower
  | token key => token (key.map Char.toLower)

theorem ofText_toLower (text : List Char) :
    ofText (text.map Char.toLower) = (ofText text).map lowered := by
  fun_induction ofText text with
  | case1 => simp [ofText]
  | case2 c rest key hkey ih =>
      have hlowered := Placeholder.keyAt?_toLower (c :: rest)
      rw [hkey, List.map_cons] at hlowered
      rw [List.map_cons, ofText, hlowered]
      simp only [Option.map_some, List.length_map, ← List.map_drop, ih, List.map_cons, lowered]
  | case3 c rest hkey ih =>
      have hlowered := Placeholder.keyAt?_toLower (c :: rest)
      rw [hkey, List.map_cons] at hlowered
      rw [List.map_cons, ofText, hlowered]
      simp only [Option.map_none, ih, List.map_cons, lowered]

@[simp] theorem keys_lowered (pieces : List Piece) :
    keys (pieces.map lowered) = (keys pieces).map Text.lowered := by
  induction pieces with
  | nil => rfl
  | cons piece rest ih =>
      cases piece with
      | literal c => exact ih
      | token key =>
          rw [List.map_cons, lowered, keys, keys, List.map_cons, ih, Text.lowered,
            String.toList_ofList]

theorem fill_lowered (pieces : List Piece) (values : List (Option String)) :
    (fill (pieces.map lowered) values).map Char.toLower =
      (fill pieces values).map Char.toLower := by
  have hwritten : ∀ piece : Piece,
      piece.lowered.written.map Char.toLower = piece.written.map Char.toLower := by
    intro piece
    cases piece <;> simp [lowered, written]
  induction pieces generalizing values with
  | nil => rfl
  | cons piece rest ih =>
      cases piece with
      | literal c => simp [lowered, fill, ih]
      | token key =>
          have hkey := hwritten (token key)
          cases values with
          | nil => simpa [lowered, fill, ih] using hkey
          | cons value? values =>
              cases value? with
              | none => simpa [lowered, fill, ih] using hkey
              | some value => simp [lowered, fill, ih]

end Piece

namespace Resolver

variable {σ : Type}

/-- A source that answers keys of one spelling up to the case of letters in the same way. -/
def IgnoresCase (resolver : Resolver σ) : Prop :=
  ∀ key other, Text.equalIgnoringCase key other = true →
    ∀ state, resolver.resolve key state = resolver.resolve other state

variable {resolver : Resolver σ}

theorem IgnoresCase.resolve_lowered (h : resolver.IgnoresCase) (key : String) (state : σ) :
    resolver.resolve (Text.lowered key) state = resolver.resolve key state :=
  h _ _ (Text.equalIgnoringCase_lowered key) state

theorem Answers.lowered (hcase : resolver.IgnoresCase) {before after : σ} {keys : List String}
    {values : List (Option String)} (h : resolver.Answers before keys values after) :
    resolver.Answers before (keys.map Text.lowered) values after := by
  induction h with
  | nil => exact .nil _
  | cons first _ ih => exact .cons (by rw [hcase.resolve_lowered, first]) ih

end Resolver

/-! ## The sources of values -/

theorem Text.parse?_congr {Field : Type} {parse? : String → Option Field} {name : Field → String}
    (hnames : ∀ {key : String} {field : Field},
      parse? key = some field ↔ equalIgnoringCase key (name field) = true)
    {key other : String} (h : equalIgnoringCase key other = true) : parse? key = parse? other :=
  Option.ext fun field => by
    rw [hnames, hnames, equalIgnoringCase_congr h]

/-- Whatever a template is filled in for, a key is read as a field and otherwise not looked at. -/
theorem Subject.ignoresCase (subject : Subject) : subject.resolver.IgnoresCase := by
  intro key other h state
  have hkey : KeyField.parse? key = KeyField.parse? other :=
    Text.parse?_congr KeyField.parse?_eq_some_iff h
  cases subject with
  | container owner =>
      have hcontainer : ContainerField.parse? key = ContainerField.parse? other :=
        Text.parse?_congr ContainerField.parse?_eq_some_iff h
      simp only [resolver, Container.resolver, Resolver.ofFunction, Container.value?, hcontainer]
  | asset owner source =>
      have hasset : AssetField.parse? key = AssetField.parse? other :=
        Text.parse?_congr AssetField.parse?_eq_some_iff h
      simp only [resolver, Asset.resolver, Asset.value, hasset]
  | key owner =>
      simp only [resolver, ContentKey.resolver, Resolver.ofFunction, ContentKey.value?, hkey]
  | keyAddress keyId =>
      simp only [resolver, keyAddressResolver, Resolver.ofFunction, keyAddressValue?, hkey]

/-! ## Expansions -/

namespace Mapper

variable {σ : Type} {resolver : Resolver σ}

/-- A template in lower case has the name of the template itself, and is looked up for in the same
way. -/
theorem expand_lowered (hcase : resolver.IgnoresCase) (mapper otherMapper : Mapper)
    (template : String) (state : σ) :
    (mapper.expand (Text.lowered template) resolver state).1 =
      (otherMapper.expand template resolver state).1 := by
  let pieces := Piece.ofText template.toList
  have hpieces : Piece.ofText (Text.lowered template).toList = pieces.map Piece.lowered := by
    rw [Text.toList_lowered, Piece.ofText_toLower]
  have hkeys : (Piece.keys (Piece.ofText (Text.lowered template).toList)).reverse =
      (Piece.keys pieces).reverse.map Text.lowered := by
    rw [hpieces, Piece.keys_lowered, List.map_reverse]
  rw [expand_eq_substitute, expand_eq_substitute]
  rcases resolver.answers_or_fails state (Piece.keys pieces).reverse with
    ⟨values, final, h⟩ | ⟨asked, failing, left, values, between, error, final, hsplit, h, hfail⟩
  · have hlowered := h.lowered hcase
    rw [← hkeys] at hlowered
    have hname := ResourceName.sanitizeChars_congr (Piece.fill_lowered pieces values.reverse)
    rw [Expansion.substitute_filled h, Expansion.substitute_filled hlowered, hpieces]
    simp only [Except.map, ResourceName.sanitize, String.toList_ofList, hname, pieces]
  · rw [hsplit, List.map_append, List.map_cons] at hkeys
    have hfailing : resolver.resolve (Text.lowered failing) between = (.error error, final) := by
      rw [hcase.resolve_lowered, hfail]
    rw [Expansion.substitute_failed hsplit h hfail,
      Expansion.substitute_failed hkeys (h.lowered hcase) hfailing]

variable {template other : String}

theorem expand_respelled (hcase : resolver.IgnoresCase)
    (h : Text.equalIgnoringCase template other = true) (mapper otherMapper : Mapper) (state : σ) :
    (mapper.expand template resolver state).1 = (otherMapper.expand other resolver state).1 := by
  rw [← Mapper.new.expand_lowered hcase mapper template, Text.lowered_eq_iff.mpr h,
    Mapper.new.expand_lowered hcase otherMapper other]

theorem expandPlacement_respelled (hcase : resolver.IgnoresCase)
    (h : Text.equalIgnoringCase template other = true) (mapper otherMapper : Mapper) (state : σ) :
    (mapper.expandPlacement template resolver state).1 =
      (otherMapper.expandPlacement other resolver state).1 := by
  rw [expandPlacement_eq_expand, expandPlacement_eq_expand,
    expand_respelled hcase h mapper otherMapper]

/-- The case of the ASCII letters of a template, in its keys or between them, never matters. Two
templates that differ in nothing else make the same of every container, asset, content key and
identifier of a content key: the same name, placement or error. The source of locators is called in
the same way, and so is any source that finds a key in every spelling, even if it answers
differently from one look-up to the next. -/
theorem expansions_ignore_letter_case (h : Text.equalIgnoringCase template other = true)
    (mapper otherMapper : Mapper) :
    (∀ container, (mapper.expandContainer container template).1 =
      (otherMapper.expandContainer container other).1) ∧
    (∀ asset source, (mapper.expandAsset asset source template).1 =
      (otherMapper.expandAsset asset source other).1) ∧
    (∀ key, (mapper.expandKey key (some template)).1 =
      (otherMapper.expandKey key (some other)).1) ∧
    (∀ keyId, (mapper.expandKeyAddress template keyId).1 =
      (otherMapper.expandKeyAddress other keyId).1) ∧
    ∀ (σ : Type) (resolver : Resolver σ), resolver.IgnoresCase → ∀ state,
      (mapper.expand template resolver state).1 = (otherMapper.expand other resolver state).1 ∧
      (mapper.expandPlacement template resolver state).1 =
        (otherMapper.expandPlacement other resolver state).1 := by
  refine ⟨fun container => ?_, fun asset source => ?_, fun key => ?_, fun keyId => ?_,
    fun σ resolver hcase state => ⟨?_, ?_⟩⟩
  · have hplacement := expandPlacement_respelled (Subject.container container).ignoresCase h mapper
      otherMapper ()
    exact (congrArg Prod.fst hplacement :)
  · exact expandPlacement_respelled (Subject.asset asset source).ignoresCase h mapper otherMapper []
  · have hname := expand_respelled (Subject.key key).ignoresCase h mapper otherMapper ()
    exact (congrArg Prod.fst hname :)
  · have haddress := expand_respelled (Subject.keyAddress keyId).ignoresCase h mapper otherMapper ()
    exact (congrArg Prod.fst haddress :)
  · exact expand_respelled hcase h mapper otherMapper state
  · exact expandPlacement_respelled hcase h mapper otherMapper state

namespace Spellings

def spelled : String :=
  "ΛΟΓΟΣ$\x7bOther_Key\x7dΣ $\x7bContainerName\x7d_$\x7bStreamingUrl\x7d"

def respelled : String :=
  "ΛΟΓΟΣ$\x7boTHER_kEY\x7dΣ $\x7bCONTAINERNAME\x7d_$\x7bstreamingURL\x7d"

def films : Container where
  name := "Films"

def clip : Asset where
  name := "clip"

def source : LocatorSource :=
  ⟨fun _ => [.locator "idle" (.ok [])]⟩

end Spellings

/-- The container has a name with two unreplaced tokens in lower case, and the look-up for the asset
fails, after the same calls. -/
theorem spellings_of_keys_make_one_name :
    (Text.equalIgnoringCase Spellings.spelled Spellings.respelled = true ∧
      Spellings.films.resolver.IgnoresCase) ∧
    (Mapper.new.expandContainer Spellings.films Spellings.spelled).1 =
      (Mapper.new.expandContainer Spellings.films Spellings.respelled).1 ∧
    (Mapper.new.expandContainer Spellings.films Spellings.respelled).1 =
      .ok ⟨"λογος$\x7bother-key\x7dσ-films-$\x7bstreamingurl\x7d", ""⟩ ∧
    (Mapper.new.expandAsset Spellings.clip Spellings.source Spellings.spelled).1 =
      (Mapper.new.expandAsset Spellings.clip Spellings.source Spellings.respelled).1 ∧
    (Mapper.new.expandAsset Spellings.clip Spellings.source Spellings.respelled).1 =
      (.error (.valueNotFound "StreamingUrl" "asset 'clip'"),
        [.opened "clip", .pulled 0, .askedPaths "idle"]) ∧
    (Mapper.new.expand Spellings.spelled Spellings.films.resolver ()).1 =
      (Mapper.new.expand Spellings.respelled Spellings.films.resolver ()).1 := by
  have hspellings : Text.equalIgnoringCase Spellings.spelled Spellings.respelled = true := by
    decide +kernel
  have hcase : Spellings.films.resolver.IgnoresCase :=
    (Subject.container Spellings.films).ignoresCase
  obtain ⟨hcontainers, hassets, _, _, hsources⟩ :=
    expansions_ignore_letter_case hspellings Mapper.new Mapper.new
  exact ⟨⟨hspellings, hcase⟩, hcontainers _, by decide +kernel, hassets _ _, by decide +kernel,
    (hsources Unit _ hcase ()).1⟩

end Mapper

end MediaMigration
