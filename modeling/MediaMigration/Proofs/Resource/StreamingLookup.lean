import MediaMigration.Proofs.Resource.Fields

/-!
# Looking up streaming URLs

A look-up pulls the locators of an asset one after the other, up to the first that settles it: one
that is a failure, whose paths cannot be told, or that publishes a path. Nothing behind that one is
pulled. Expanding a template looks the URL up once for each of its tokens that names it, from right
to left. A source gives the same items every time, so all these look-ups go the same way: either
each of them succeeds, or the first one ends the expansion. Nothing else can.
-/

namespace MediaMigration

namespace LocatorItem

def answer? : LocatorItem → Option (Except MigrationError String)
  | failure error => some (.error error)
  | locator _ (.error error) => some (.error error)
  | locator _ (.ok paths) => paths.head?.map .ok

def calls (index : Nat) : LocatorItem → List LocatorCall
  | failure _ => [.pulled index]
  | locator name _ => [.pulled index, .askedPaths name]

end LocatorItem

namespace LocatorSource

variable {asset : Asset} {source : LocatorSource}

/-! ## One look-up -/

/-- What is asked of a source to go through some items, the first of which has this index. -/
def callsFrom (index : Nat) : List LocatorItem → List LocatorCall
  | [] => []
  | item :: rest => item.calls index ++ callsFrom (index + 1) rest

theorem firstPath_cons_settled {item : LocatorItem} {answer : Except MigrationError String}
    (h : item.answer? = some answer) (rest : List LocatorItem) (index : Nat) :
    firstPath asset (item :: rest) index = (answer, item.calls index) := by
  cases item with
  | failure error => rw [firstPath, Option.some.inj h, LocatorItem.calls]
  | locator name paths =>
      cases paths with
      | error error => rw [firstPath, Option.some.inj h, LocatorItem.calls]
      | ok paths =>
          cases paths with
          | nil => exact absurd h (by simp [LocatorItem.answer?])
          | cons path others =>
              have hpath : Except.ok path = answer := Option.some.inj h
              rw [firstPath, hpath, LocatorItem.calls]

theorem firstPath_cons_idle {item : LocatorItem} (h : item.answer? = none)
    (rest : List LocatorItem) (index : Nat) :
    firstPath asset (item :: rest) index =
      ((firstPath asset rest (index + 1)).1,
        item.calls index ++ (firstPath asset rest (index + 1)).2) := by
  cases item with
  | failure error => exact absurd h (by simp [LocatorItem.answer?])
  | locator name paths =>
      cases paths with
      | error error => exact absurd h (by simp [LocatorItem.answer?])
      | ok paths =>
          cases paths with
          | nil => rfl
          | cons path others => exact absurd h (by simp [LocatorItem.answer?])

theorem firstPath_settled {passed : List LocatorItem} {item : LocatorItem}
    {answer : Except MigrationError String} (hpassed : ∀ other ∈ passed, other.answer? = none)
    (hitem : item.answer? = some answer) (left : List LocatorItem) (index : Nat) :
    firstPath asset (passed ++ item :: left) index =
      (answer, callsFrom index (passed ++ [item])) := by
  induction passed generalizing index with
  | nil =>
      rw [List.nil_append, List.nil_append, firstPath_cons_settled hitem, callsFrom, callsFrom,
        List.append_nil]
  | cons first others ih =>
      obtain ⟨hfirst, hothers⟩ := List.forall_mem_cons.mp hpassed
      rw [List.cons_append, List.cons_append, firstPath_cons_idle hfirst, ih hothers, callsFrom]

theorem firstPath_idle {items : List LocatorItem} (h : ∀ item ∈ items, item.answer? = none)
    (index : Nat) :
    firstPath asset items index = (.error (noStreamingUrl asset), callsFrom index items) := by
  induction items generalizing index with
  | nil => rfl
  | cons first others ih =>
      obtain ⟨hfirst, hothers⟩ := List.forall_mem_cons.mp h
      rw [firstPath_cons_idle hfirst, ih hothers, callsFrom]

/-- The first item that gives an answer settles the look-up, and no item behind it is pulled. -/
theorem streamingUrl_settled {passed left : List LocatorItem} {item : LocatorItem}
    {answer : Except MigrationError String} (hitems : source.items asset = passed ++ item :: left)
    (hpassed : ∀ other ∈ passed, other.answer? = none) (hitem : item.answer? = some answer) :
    source.streamingUrl asset =
      (answer, .opened asset.name :: callsFrom 0 (passed ++ [item])) := by
  rw [streamingUrl, hitems, firstPath_settled hpassed hitem]

theorem streamingUrl_idle (h : ∀ item ∈ source.items asset, item.answer? = none) :
    source.streamingUrl asset =
      (.error (noStreamingUrl asset), .opened asset.name :: callsFrom 0 (source.items asset)) := by
  rw [streamingUrl, firstPath_idle h]

end LocatorSource

/-! ## The look-ups of an expansion -/

/-- Does a key name the streaming URL of an asset? -/
def namesStreamingUrl (key : String) : Bool :=
  Text.equalIgnoringCase key "StreamingUrl"

namespace Asset

variable {asset : Asset} {source : LocatorSource}

/-- A key that names the streaming URL is looked up once. -/
theorem resolve_streamingUrl {key : String} (h : namesStreamingUrl key = true)
    (calls : List LocatorCall) :
    (asset.resolver source).resolve key calls =
      ((source.streamingUrl asset).1.map some, calls ++ (source.streamingUrl asset).2) := by
  have hfield : AssetField.parse? key = some .streamingUrl := AssetField.parse?_eq_some_iff.mpr h
  unfold Asset.resolver Asset.value
  simp only [hfield]
  cases source.streamingUrl asset with
  | mk answer made => cases answer <;> rfl

/-- Any other key has a value or none, and nothing is asked of the source for it. -/
theorem resolve_other (asset : Asset) (source : LocatorSource) {key : String}
    (h : namesStreamingUrl key = false) (calls : List LocatorCall) :
    ∃ value?, (asset.resolver source).resolve key calls = (.ok value?, calls) := by
  have hfield : AssetField.parse? key ≠ some .streamingUrl := by
    intro hurl
    have hname : namesStreamingUrl key = true := AssetField.parse?_eq_some_iff.mp hurl
    rw [h] at hname
    exact absurd hname (by simp)
  have hvalue : ∃ value?, asset.value source key = (.ok value?, []) := by
    unfold Asset.value
    cases hparsed : AssetField.parse? key with
    | none => exact ⟨_, rfl⟩
    | some field =>
        cases field with
        | streamingUrl => exact absurd hparsed hfield
        | assetId => exact ⟨_, rfl⟩
        | assetName => exact ⟨_, rfl⟩
        | alternateId => exact ⟨_, rfl⟩
        | containerName => exact ⟨_, rfl⟩
  obtain ⟨value?, hvalue⟩ := hvalue
  refine ⟨value?, ?_⟩
  unfold Asset.resolver
  simp only [hvalue, List.append_nil]

def callsOf (asset : Asset) (source : LocatorSource) (lookups : Nat) : List LocatorCall :=
  (List.replicate lookups (source.streamingUrl asset).2).flatten

theorem callsOf_succ (asset : Asset) (source : LocatorSource) (lookups : Nat) :
    asset.callsOf source (lookups + 1) =
      (source.streamingUrl asset).2 ++ asset.callsOf source lookups := by
  rw [callsOf, callsOf, List.replicate_succ, List.flatten_cons]

/-- Keys that are all answered have been looked up once for each that names the streaming URL, and
if there is one, the look-up succeeds. -/
theorem lookups_of_answers {before after : List LocatorCall} {keys : List String}
    {values : List (Option String)}
    (h : (asset.resolver source).Answers before keys values after) :
    after = before ++ asset.callsOf source (keys.countP namesStreamingUrl) ∧
      ∀ error, (source.streamingUrl asset).1 = .error error →
        keys.countP namesStreamingUrl = 0 := by
  induction h with
  | nil state => exact ⟨(List.append_nil state).symm, fun _ _ => rfl⟩
  | @cons before between after key keys value? values hfirst _ ih =>
      obtain ⟨hafter, hnone⟩ := ih
      cases hkey : namesStreamingUrl key with
      | true =>
          rw [resolve_streamingUrl hkey] at hfirst
          obtain ⟨hvalue, hbetween⟩ := Prod.mk.inj hfirst
          constructor
          · rw [List.countP_cons_of_pos hkey, callsOf_succ, hafter, ← hbetween, List.append_assoc]
          · intro error herror
            rw [herror] at hvalue
            exact absurd hvalue (by simp [Except.map])
      | false =>
          obtain ⟨other, hother⟩ := asset.resolve_other source hkey before
          rw [hother] at hfirst
          obtain ⟨_, hbetween⟩ := Prod.mk.inj hfirst
          rw [List.countP_cons_of_neg (by simp [hkey]), hafter, ← hbetween]
          exact ⟨rfl, hnone⟩

theorem lookup_of_failure {key : String} {before after : List LocatorCall} {error : MigrationError}
    (h : (asset.resolver source).resolve key before = (.error error, after)) :
    namesStreamingUrl key = true ∧ (source.streamingUrl asset).1 = .error error ∧
      after = before ++ (source.streamingUrl asset).2 := by
  cases hkey : namesStreamingUrl key with
  | true =>
      rw [resolve_streamingUrl hkey] at h
      obtain ⟨herror, hafter⟩ := Prod.mk.inj h
      refine ⟨rfl, ?_, hafter.symm⟩
      cases hlookup : (source.streamingUrl asset).1 with
      | ok url =>
          rw [hlookup] at herror
          exact absurd herror (by simp [Except.map])
      | error cause =>
          rw [hlookup] at herror
          rw [Except.error.inj herror]
  | false =>
      obtain ⟨value?, hother⟩ := asset.resolve_other source hkey before
      rw [hother] at h
      exact absurd (Prod.mk.inj h).1 (by simp)

end Asset

namespace Mapper

variable (mapper : Mapper) (asset : Asset) (source : LocatorSource) (template : String)

/-- The tokens of a template that name the streaming URL, in any letter case. -/
def urlTokens (template : String) : Nat :=
  (Placeholder.scan template).countP fun placeholder => namesStreamingUrl placeholder.key

theorem urlTokens_eq :
    (Piece.keys (Piece.ofText template.toList)).reverse.countP namesStreamingUrl =
      urlTokens template := by
  rw [List.countP_reverse, ← Piece.keys_ofText, List.countP_map]
  rfl

/-- Either each token that names the streaming URL was looked up with success, or there is such a
token, and the first look-up has ended the expansion. -/
theorem expandAsset_cases :
    (∃ placement, (mapper.expandAsset asset source template).1 =
        (.ok placement, asset.callsOf source (urlTokens template)) ∧
      ∀ error, (source.streamingUrl asset).1 = .error error → urlTokens template = 0) ∨
    ∃ error, (source.streamingUrl asset).1 = .error error ∧ 0 < urlTokens template ∧
      (mapper.expandAsset asset source template).1 =
        (.error error, (source.streamingUrl asset).2) := by
  let resolver := asset.resolver source
  let keys := (Piece.keys (Piece.ofText template.toList)).reverse
  have hkeys : keys.countP namesStreamingUrl = urlTokens template := urlTokens_eq template
  rw [expandAsset, expandPlacement_eq_expand, expand_eq_substitute]
  rcases resolver.answers_or_fails [] keys with
    ⟨values, final, h⟩ | ⟨asked, failing, left, values, between, error, final, hsplit, h, hfail⟩
  · left
    obtain ⟨hfinal, hnone⟩ := Asset.lookups_of_answers h
    rw [hkeys, List.nil_append] at hfinal
    rw [hkeys] at hnone
    rw [Expansion.substitute_filled h, hfinal]
    exact ⟨_, rfl, hnone⟩
  · right
    obtain ⟨hurl, herror, hfinal⟩ := Asset.lookup_of_failure hfail
    obtain ⟨hbetween, hnone⟩ := Asset.lookups_of_answers h
    -- the look-up fails, so no token to the right of this one has been looked up
    rw [hnone error herror] at hbetween
    have hcalls : final = (source.streamingUrl asset).2 := by
      rw [hfinal, hbetween]
      rfl
    refine ⟨error, herror, ?_, ?_⟩
    · rw [← hkeys, hsplit, List.countP_pos_iff]
      exact ⟨failing, List.mem_append_right _ List.mem_cons_self, hurl⟩
    · rw [Expansion.substitute_failed hsplit h hfail, hcalls]
      rfl

end Mapper

namespace Asset

/-- A look-up of a streaming URL goes through the locators up to the first that is a failure, whose
paths cannot be told, or that publishes a path, and answers with that failure or with the first
path; it pulls no locator behind that one. If there is none, no value is found for the asset.
Expanding a template for the asset fails exactly if a token names the streaming URL and the look-up
fails, and then it fails in the same way. The source is asked for one look-up for each such token if
the look-up succeeds, for a single one if it fails, and for nothing if there is no such token. -/
theorem expansion_fails_by_lookup_alone (asset : Asset) (source : LocatorSource) :
    (∀ passed item left answer, source.items asset = passed ++ item :: left →
      (∀ other ∈ passed, other.answer? = none) → item.answer? = some answer →
      source.streamingUrl asset =
        (answer, .opened asset.name :: LocatorSource.callsFrom 0 (passed ++ [item]))) ∧
    ((∀ item ∈ source.items asset, item.answer? = none) →
      source.streamingUrl asset =
        (.error (.valueNotFound "StreamingUrl" ("asset '" ++ asset.name ++ "'")),
          .opened asset.name :: LocatorSource.callsFrom 0 (source.items asset))) ∧
    ∀ (mapper : Mapper) (template : String),
      let lookup := source.streamingUrl asset
      let tokens := Mapper.urlTokens template
      let outcome := (mapper.expandAsset asset source template).1
      (∀ error, outcome.1 = .error error ↔ 0 < tokens ∧ lookup.1 = .error error) ∧
      (∀ url, lookup.1 = .ok url → outcome.2 = asset.callsOf source tokens) ∧
      (∀ error, lookup.1 = .error error → 0 < tokens → outcome.2 = lookup.2) ∧
      (tokens = 0 → outcome.2 = []) := by
  refine ⟨fun passed item left answer hitems hpassed hitem =>
    LocatorSource.streamingUrl_settled hitems hpassed hitem, LocatorSource.streamingUrl_idle, ?_⟩
  intro mapper template lookup tokens outcome
  rcases mapper.expandAsset_cases asset source template with
    ⟨placement, houtcome, hnone⟩ | ⟨error, hlookup, hpos, houtcome⟩
  · have hok : outcome = (.ok placement, asset.callsOf source tokens) := houtcome
    rw [hok]
    refine ⟨fun error => ⟨fun h => absurd h (by simp), ?_⟩, fun _ _ => rfl, ?_, ?_⟩
    · rintro ⟨hpos, herror⟩
      exact absurd (hnone error herror) (Nat.ne_of_gt hpos)
    · intro error herror hpos
      exact absurd (hnone error herror) (Nat.ne_of_gt hpos)
    · intro hzero
      rw [hzero]
      rfl
  · have hfailed : outcome = (.error error, lookup.2) := houtcome
    have herror : lookup.1 = .error error := hlookup
    rw [hfailed, herror]
    refine ⟨fun other => ⟨fun h => ?_, ?_⟩, fun url h => absurd h (by simp), fun _ _ _ => rfl,
      fun hzero => absurd hzero (Nat.ne_of_gt hpos)⟩
    · rw [Except.error.inj h]
      exact ⟨hpos, rfl⟩
    · rintro ⟨_, h⟩
      rw [Except.error.inj h]

namespace Streams

def clip : Asset where
  name := "clip"

def published : LocatorSource :=
  ⟨fun _ => [.locator "idle" (.ok []), .locator "hls" (.ok ["/one/m", "/later"]),
    .failure .cancelled]⟩

def refused : LocatorSource :=
  ⟨fun _ => [.locator "idle" (.ok []), .locator "hls" (.error (.locatorLookup "gone")),
    .locator "dash" (.ok ["/two/m"])]⟩

def template : String :=
  "$\x7bstreamingurl\x7d-$\x7bOther\x7d-$\x7bSTREAMINGURL\x7d"

end Streams

/-- The two tokens are looked up one after the other, or the second of them alone if that fails. -/
theorem expansion_looks_clip_up :
    (∀ other ∈ [LocatorItem.locator "idle" (.ok [])], other.answer? = none) ∧
      let found := (Mapper.new.expandAsset Streams.clip Streams.published Streams.template).1
      let failed := (Mapper.new.expandAsset Streams.clip Streams.refused Streams.template).1
      let lookup := [LocatorCall.opened "clip", .pulled 0, .askedPaths "idle", .pulled 1,
        .askedPaths "hls"]
      (∀ error, found.1 ≠ .error error) ∧ found.2 = lookup ++ lookup ∧
        failed = (.error (.locatorLookup "gone"), lookup) := by
  have hidle : ∀ other ∈ [LocatorItem.locator "idle" (.ok [])], other.answer? = none :=
    List.forall_mem_singleton.mpr rfl
  have htokens : Mapper.urlTokens Streams.template = 2 := by decide
  obtain ⟨hfound, _, hexpanded⟩ := expansion_fails_by_lookup_alone Streams.clip Streams.published
  obtain ⟨hrefused, _, hended⟩ := expansion_fails_by_lookup_alone Streams.clip Streams.refused
  have hpublished := hfound [.locator "idle" (.ok [])] (.locator "hls" (.ok ["/one/m", "/later"]))
    [.failure .cancelled] (.ok "/one/m") rfl hidle rfl
  have hgone := hrefused [.locator "idle" (.ok [])]
    (.locator "hls" (.error (.locatorLookup "gone"))) [.locator "dash" (.ok ["/two/m"])]
    (.error (.locatorLookup "gone")) rfl hidle rfl
  obtain ⟨hnone, hcalls, _⟩ := hexpanded Mapper.new Streams.template
  obtain ⟨herror, _, hsingle, _⟩ := hended Mapper.new Streams.template
  rw [htokens] at hcalls herror hsingle
  rw [hpublished] at hnone hcalls
  rw [hgone] at herror hsingle
  refine ⟨hidle, fun error h => ?_, hcalls "/one/m" rfl, ?_⟩
  · exact absurd ((hnone error).mp h).2 (by simp)
  · exact Prod.ext ((herror _).mpr ⟨by decide, rfl⟩) (hsingle _ rfl (by decide))

end Asset

end MediaMigration
