import MediaMigration.Resource.Value
import MediaMigration.Template.Basic

/-!
# Template mapper

A mapper expands templates and keeps what it found when it first searched each template
text for placeholders. Its memory holds nothing but the placeholders of the texts, so an
expansion comes out the same whatever was expanded before. Values are never kept: a source
may answer differently from one expansion to the next.
-/

namespace MediaMigration

/-- What a mapper remembers of a text: the number of the slot it was given when it was
first searched, and the placeholders found. -/
structure Scan where
  slot : Nat
  found : List Placeholder
deriving DecidableEq, Repr

structure Mapper where
  scans : List (String × List Placeholder)
  sound : ∀ scan ∈ scans, scan.2 = Placeholder.scan scan.1

namespace Mapper

def new : Mapper :=
  ⟨[], by simp⟩

def remembered? (mapper : Mapper) (template : String) : Option Scan :=
  match mapper.scans.findIdx? fun scan => scan.1 == template with
  | none => none
  | some slot => mapper.scans[slot]?.map fun scan => ⟨slot, scan.2⟩

def scan (mapper : Mapper) (template : String) : Scan × Mapper :=
  match mapper.remembered? template with
  | some known => (known, mapper)
  | none =>
      let found := Placeholder.scan template
      (⟨mapper.scans.length, found⟩,
        ⟨mapper.scans ++ [(template, found)], by
          intro scan h
          rcases List.mem_append.mp h with h | h
          · exact mapper.sound scan h
          · simp only [List.mem_singleton] at h
            simp [h, found]⟩)

def expand {σ : Type} (mapper : Mapper) (template : String) (resolver : Resolver σ)
    (state : σ) : (Except MigrationError String × σ) × Mapper :=
  let (known, mapper) := mapper.scan template
  (Expansion.expandScanned template known.found resolver state, mapper)

def expandPlacement {σ : Type} (mapper : Mapper) (template : String) (resolver : Resolver σ)
    (state : σ) : (Except MigrationError Placement × σ) × Mapper :=
  match mapper.expand template resolver state with
  | ((.ok name, state), mapper) => ((.ok (Placement.ofName name), state), mapper)
  | ((.error error, state), mapper) => ((.error error, state), mapper)

def expandAsset (mapper : Mapper) (asset : Asset) (source : LocatorSource)
    (template : String) : (Except MigrationError Placement × List LocatorCall) × Mapper :=
  mapper.expandPlacement template (asset.resolver source) []

def expandContainer (mapper : Mapper) (container : Container) (template : String) :
    Except MigrationError Placement × Mapper :=
  let ((answer, _), mapper) := mapper.expandPlacement template container.resolver ()
  (answer, mapper)

/-- The name of a content key. Without a template it is the identifier as it is written. -/
def expandKey (mapper : Mapper) (key : ContentKey) (template? : Option String) :
    Except MigrationError String × Mapper :=
  match template? with
  | none => (.ok key.id.toString, mapper)
  | some template =>
      let ((answer, _), mapper) := mapper.expand template key.resolver ()
      (answer, mapper)

def expandKeyAddress (mapper : Mapper) (template keyId : String) :
    Except MigrationError String × Mapper :=
  let ((answer, _), mapper) := mapper.expand template (keyAddressResolver keyId) ()
  (answer, mapper)

end Mapper

end MediaMigration
