import MediaMigration.Proofs.Template.Substitution

/-!
# What a mapper remembers

One mapper serves all units of a migration, whatever their kind, and goes by the text of a template
alone. Its memory is a closed form of the texts that it has searched: each of them once, in the
order in which they first came, with its own placeholders. So no request can tell what was asked
before it, whether that failed or not, and a text that has been searched is never searched again.
-/

namespace MediaMigration

namespace Mapper

variable {σ : Type}

/-! ## The texts in memory -/

def texts (mapper : Mapper) : List String :=
  mapper.scans.map Prod.fst

theorem scans_eq (mapper : Mapper) :
    mapper.scans = mapper.texts.map fun text => (text, Placeholder.scan text) := by
  have hsame : ∀ scan ∈ mapper.scans, (scan.1, Placeholder.scan scan.1) = scan := by
    intro scan hscan
    rw [← mapper.sound scan hscan]
  rw [texts, List.map_map]
  calc mapper.scans
      = mapper.scans.map id := (List.map_id mapper.scans).symm
    _ = _ := (List.map_congr_left hsame).symm

theorem remembered?_eq (mapper : Mapper) (template : String) :
    mapper.remembered? template =
      (mapper.texts.idxOf? template).map fun slot => ⟨slot, Placeholder.scan template⟩ := by
  have hfind : mapper.scans.findIdx? (fun scan => scan.1 == template) =
      mapper.texts.idxOf? template := by
    rw [texts, List.idxOf?, List.findIdx?_map]
    rfl
  unfold remembered?
  rw [hfind]
  cases hslot : mapper.texts.idxOf? template with
  | none => rfl
  | some slot =>
      obtain ⟨hlt, htext, _⟩ := List.idxOf?_eq_some_iff.mp hslot
      have hentry : mapper.scans[slot]? = some (template, Placeholder.scan template) := by
        rw [scans_eq, List.getElem?_map, List.getElem?_eq_getElem hlt, htext, Option.map_some]
      simp only [hentry, Option.map_some]

/-- What a mapper has in memory when it has searched texts, of which some may have come more than
once. -/
def HasSearched (mapper : Mapper) (history : List String) : Prop :=
  mapper.texts = history.eraseDups

theorem hasSearched_new : new.HasSearched [] :=
  rfl

theorem eraseDups_concat (history : List String) (template : String) :
    (history ++ [template]).eraseDups =
      if template ∈ history then history.eraseDups else history.eraseDups ++ [template] := by
  rw [List.eraseDups_append]
  split
  · next hmem => simp [List.removeAll, hmem]
  · next hnew => simp [List.removeAll, hnew, List.eraseDups_cons]

namespace HasSearched

variable {mapper : Mapper} {history : List String}

theorem scan (h : mapper.HasSearched history) (template : String) :
    (mapper.scan template).2.HasSearched (history ++ [template]) := by
  have hmem : template ∈ mapper.texts ↔ template ∈ history := by
    rw [h, List.mem_eraseDups]
  unfold HasSearched at h ⊢
  rw [eraseDups_concat, ← h]
  unfold Mapper.scan
  rw [remembered?_eq]
  cases hslot : mapper.texts.idxOf? template with
  | none =>
      have hnew : template ∉ history := by
        rw [← hmem]
        exact List.idxOf?_eq_none_iff.mp hslot
      rw [if_neg hnew]
      simp [texts]
  | some slot =>
      obtain ⟨hlt, htext, _⟩ := List.idxOf?_eq_some_iff.mp hslot
      have hold : template ∈ history := by
        rw [← hmem, ← htext]
        exact List.getElem_mem hlt
      rw [if_pos hold]
      rfl

/-- A text that has its place is found there, and is not searched again. -/
theorem scan_again (h : mapper.HasSearched history) {template : String} {slot : Nat}
    (hslot : history.eraseDups.idxOf? template = some slot) :
    mapper.scan template = (⟨slot, Placeholder.scan template⟩, mapper) := by
  have hknown : mapper.remembered? template = some ⟨slot, Placeholder.scan template⟩ := by
    rw [remembered?_eq, h, hslot, Option.map_some]
  simp only [Mapper.scan, hknown]

end HasSearched

theorem exists_slot {history : List String} {template : String} (hmem : template ∈ history) :
    ∃ slot, history.eraseDups.idxOf? template = some slot := by
  cases hslot : history.eraseDups.idxOf? template with
  | none =>
      have hnew := List.idxOf?_eq_none_iff.mp hslot
      exact absurd (List.mem_eraseDups.mpr hmem) hnew
  | some slot => exact ⟨slot, rfl⟩

theorem idxOf?_eraseDups_append {history : List String} {template : String} {slot : Nat}
    (h : history.eraseDups.idxOf? template = some slot) (more : List String) :
    (history ++ more).eraseDups.idxOf? template = some slot := by
  rw [List.eraseDups_append, List.idxOf?, List.findIdx?_append]
  rw [List.idxOf?] at h
  rw [h]
  rfl

/-! ## Requests -/

/-- The keys that a source of values is asked for when a template is expanded, in order. -/
def keysAsked (mapper : Mapper) (template : String) (resolver : Resolver σ) (state : σ) :
    List String :=
  (mapper.expand template resolver.recorded (state, [])).1.2.2

/-- What a mapper can be asked to do. The sources of values that callers bring share a state, which
may change with each look-up. -/
inductive Request (σ : Type) where
  | scan (template : String)
  | name (template : String) (resolver : Resolver σ)
  | placement (template : String) (resolver : Resolver σ)
  | asset (asset : Asset) (source : LocatorSource) (template : String)
  | container (container : Container) (template : String)
  | key (key : ContentKey) (template? : Option String)
  | keyAddress (template keyId : String)

inductive Answer where
  | found (placeholders : List Placeholder)
  | name (result : Except MigrationError String)
  | placement (result : Except MigrationError Placement)

/-- What comes of a request: the answer, the keys that values were looked up for, and the calls made
on the source of locators. -/
structure Response where
  answer : Answer
  keys : List String := []
  lookups : List LocatorCall := []

namespace Request

def template? : Request σ → Option String
  | scan template => some template
  | name template _ => some template
  | placement template _ => some template
  | asset _ _ template => some template
  | container _ template => some template
  | key _ template? => template?
  | keyAddress template _ => some template

def serve (request : Request σ) (mapper : Mapper) (state : σ) : (Response × σ) × Mapper :=
  match request with
  | scan template =>
      let (known, later) := mapper.scan template
      ((⟨.found known.found, [], []⟩, state), later)
  | name template resolver =>
      let ((result, after), later) := mapper.expand template resolver state
      ((⟨.name result, mapper.keysAsked template resolver state, []⟩, after), later)
  | placement template resolver =>
      let ((result, after), later) := mapper.expandPlacement template resolver state
      ((⟨.placement result, mapper.keysAsked template resolver state, []⟩, after), later)
  | asset owner source template =>
      let ((result, lookups), later) := mapper.expandAsset owner source template
      let keys := mapper.keysAsked template (owner.resolver source) []
      ((⟨.placement result, keys, lookups⟩, state), later)
  | container owner template =>
      let (result, later) := mapper.expandContainer owner template
      ((⟨.placement result, mapper.keysAsked template owner.resolver (), []⟩, state), later)
  | key owner template? =>
      let (result, later) := mapper.expandKey owner template?
      let keys := template?.elim [] fun template => mapper.keysAsked template owner.resolver ()
      ((⟨.name result, keys, []⟩, state), later)
  | keyAddress template keyId =>
      let (result, later) := mapper.expandKeyAddress template keyId
      let keys := mapper.keysAsked template (keyAddressResolver keyId) ()
      ((⟨.name result, keys, []⟩, state), later)

end Request

def serveAll : List (Request σ) → Mapper → σ → (List Response × σ) × Mapper
  | [], mapper, state => (([], state), mapper)
  | request :: rest, mapper, state =>
      let ((response, next), later) := request.serve mapper state
      let ((responses, final), last) := serveAll rest later next
      ((response :: responses, final), last)

/-- Requests one after the other, each on a mapper of its own that has searched nothing yet. -/
def serveAfresh : List (Request σ) → σ → List Response × σ
  | [], state => ([], state)
  | request :: rest, state =>
      let (response, next) := (request.serve .new state).1
      let (responses, final) := serveAfresh rest next
      (response :: responses, final)

def textsOf (requests : List (Request σ)) : List String :=
  requests.filterMap Request.template?

/-! ## One request -/

theorem keysAsked_of_any (mapper other : Mapper) (template : String) (resolver : Resolver σ)
    (state : σ) :
    mapper.keysAsked template resolver state = other.keysAsked template resolver state := by
  rw [keysAsked, keysAsked, mapper.expand_of_any other]

/-- What comes of a request does not depend on what the mapper remembers. -/
theorem Request.serve_of_any (request : Request σ) (mapper other : Mapper) (state : σ) :
    (request.serve mapper state).1 = (request.serve other state).1 := by
  cases request with
  | scan template => simp only [serve, scan_found]
  | name template resolver =>
      simp only [serve, mapper.keysAsked_of_any other, mapper.expand_of_any other]
  | placement template resolver =>
      simp only [serve, mapper.keysAsked_of_any other, mapper.expandPlacement_of_any other]
  | asset owner source template =>
      simp only [serve, mapper.keysAsked_of_any other, mapper.expandAsset_of_any other]
  | container owner template =>
      simp only [serve, mapper.keysAsked_of_any other, mapper.expandContainer_of_any other]
  | key owner template? =>
      simp only [serve, mapper.keysAsked_of_any other, mapper.expandKey_of_any other]
  | keyAddress template keyId =>
      simp only [serve, mapper.keysAsked_of_any other, mapper.expandKeyAddress_of_any other]

@[simp] theorem expand_mapper (mapper : Mapper) (template : String) (resolver : Resolver σ)
    (state : σ) :
    (mapper.expand template resolver state).2 = (mapper.scan template).2 :=
  rfl

@[simp] theorem expandPlacement_mapper (mapper : Mapper) (template : String) (resolver : Resolver σ)
    (state : σ) :
    (mapper.expandPlacement template resolver state).2 = (mapper.scan template).2 := by
  rw [← mapper.expand_mapper template resolver state]
  unfold expandPlacement
  split
  · next hexpand => rw [hexpand]
  · next hexpand => rw [hexpand]

/-- All that a request does to a mapper is to have its text searched. -/
theorem Request.mapper_serve (request : Request σ) (mapper : Mapper) (state : σ) :
    (request.serve mapper state).2 =
      request.template?.elim mapper fun template => (mapper.scan template).2 := by
  cases request with
  | scan template => rfl
  | name template resolver => exact mapper.expand_mapper template resolver state
  | placement template resolver => exact mapper.expandPlacement_mapper template resolver state
  | asset owner source template =>
      exact mapper.expandPlacement_mapper template (owner.resolver source) []
  | container owner template => exact mapper.expandPlacement_mapper template owner.resolver ()
  | key owner template? => cases template? <;> rfl
  | keyAddress template keyId => rfl

theorem HasSearched.serve {mapper : Mapper} {history : List String}
    (h : mapper.HasSearched history) (request : Request σ) (state : σ) :
    (request.serve mapper state).2.HasSearched (history ++ request.template?.toList) := by
  rw [request.mapper_serve]
  cases request.template? with
  | none => simpa using h
  | some template => exact h.scan template

/-! ## Any number of requests -/

theorem serveAll_of_any (requests : List (Request σ)) (mapper : Mapper) (state : σ) :
    (serveAll requests mapper state).1 = serveAfresh requests state := by
  induction requests generalizing mapper state with
  | nil => rfl
  | cons request rest ih =>
      have hfirst := request.serve_of_any mapper .new state
      simp only [serveAll, serveAfresh, hfirst, ih]

theorem HasSearched.serveAll {mapper : Mapper} {history : List String}
    (h : mapper.HasSearched history) (requests : List (Request σ)) (state : σ) :
    (serveAll requests mapper state).2.HasSearched (history ++ textsOf requests) := by
  induction requests generalizing mapper history state with
  | nil => simpa [textsOf, Mapper.serveAll] using h
  | cons request rest ih =>
      have hrest := ih (h.serve request state) (request.serve mapper state).1.2
      have htexts : textsOf (request :: rest) = request.template?.toList ++ textsOf rest := by
        cases hfirst : request.template? with
        | none => simp [textsOf, hfirst]
        | some template => simp [textsOf, hfirst]
      rw [htexts, ← List.append_assoc]
      exact hrest

/-- Nothing that a mapper remembers shows in what comes of a request. All requests of a history,
whether they succeed or fail, are answered as each of them would be on a mapper of its own, with the
same look-ups in the same order. The memory is made of the texts of the requests alone, each of them
once with its own placeholders. A text that was searched has an entry from then on: it is what every
later scan of the text gives, and nothing is entered for the text again. -/
theorem memory_is_invisible (requests : List (Request σ)) (state : σ) :
    let run := serveAll requests .new state
    run.1 = serveAfresh requests state ∧
      run.2.scans = (textsOf requests).eraseDups.map (fun text => (text, Placeholder.scan text)) ∧
      ∀ text ∈ textsOf requests, ∃ known,
        run.2.scans[known.slot]? = some (text, known.found) ∧
        ∀ (later : List (Request σ)) (next : σ),
          let after := (serveAll later run.2 next).2
          after.scan text = (known, after) := by
  intro run
  have hsearched : run.2.HasSearched (textsOf requests) :=
    hasSearched_new.serveAll requests state
  have hscans := run.2.scans_eq
  rw [hsearched] at hscans
  refine ⟨serveAll_of_any requests .new state, hscans, ?_⟩
  intro text htext
  obtain ⟨slot, hslot⟩ := exists_slot htext
  refine ⟨⟨slot, Placeholder.scan text⟩, ?_, ?_⟩
  · obtain ⟨hlt, hat, _⟩ := List.idxOf?_eq_some_iff.mp hslot
    rw [hscans, List.getElem?_map, List.getElem?_eq_getElem hlt, hat, Option.map_some]
  · intro later next after
    have hafter : after.HasSearched (textsOf requests ++ textsOf later) :=
      hsearched.serveAll later next
    exact hafter.scan_again (idxOf?_eraseDups_append hslot (textsOf later))

def Request.mixed : List (Request Unit) :=
  [.asset { name := "clip" } ⟨fun _ => []⟩ "$\x7bStreamingUrl\x7d",
    .container { name := "media" } "$\x7bContainerName\x7d",
    .scan "$\x7bStreamingUrl\x7d"]

/-- The expansion for the asset fails, and its template is remembered all the same. -/
theorem failed_template_is_remembered :
    let run := serveAll Request.mixed .new ()
    "$\x7bStreamingUrl\x7d" ∈ textsOf Request.mixed ∧ ∃ known,
      run.2.scans[known.slot]? = some ("$\x7bStreamingUrl\x7d", known.found) ∧
      run.2.scan "$\x7bStreamingUrl\x7d" = (known, run.2) := by
  intro run
  have hmem : "$\x7bStreamingUrl\x7d" ∈ textsOf Request.mixed := List.mem_cons_self
  obtain ⟨_, _, hremembered⟩ := memory_is_invisible Request.mixed ()
  obtain ⟨known, hentry, hagain⟩ := hremembered _ hmem
  exact ⟨hmem, known, hentry, hagain [] ()⟩

end Mapper

end MediaMigration
