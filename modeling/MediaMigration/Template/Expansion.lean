import MediaMigration.Template.Placeholder
import MediaMigration.Error
import MediaMigration.ResourceName
import MediaMigration.Placement

/-!
# Expansion

The placeholders of a template are replaced from right to left. The byte ranges of those
still to come lie to the left of the place that changes, so they stay valid whatever the
length of the values, and a value is never searched for placeholders itself. A placeholder
without a value stays as it is written. The first lookup that fails ends the expansion.
-/

namespace MediaMigration

/-- A source of values for placeholder keys. Its answers may depend on a state that each
lookup changes, and a lookup may fail. `none` says that the key has no value. -/
structure Resolver (σ : Type) where
  resolve : String → σ → Except MigrationError (Option String) × σ

namespace Resolver

def ofFunction (value? : String → Option String) : Resolver Unit :=
  ⟨fun key state => (.ok (value? key), state)⟩

end Resolver

namespace Expansion

/-- Cut a text after `count` bytes. There is no cut inside a character or past the end. -/
def cutAt? : Nat → List Char → Option (List Char × List Char)
  | 0, text => some ([], text)
  | _ + 1, [] => none
  | count + 1, c :: rest =>
      if count + 1 < c.utf8Size then none
      else
        match cutAt? (count + 1 - c.utf8Size) rest with
        | some (before, after) => some (c :: before, after)
        | none => none
termination_by structural _ text => text

def splice? (text : List Char) (start stop : Nat) (value : List Char) : Option (List Char) :=
  match cutAt? start text, cutAt? stop text with
  | some (before, _), some (_, after) => some (before ++ value ++ after)
  | _, _ => none

/-- Put a value in place of a placeholder. The ranges that a scan of the text finds can
always be cut out. -/
def replace (text : List Char) (placeholder : Placeholder) (value : String) : List Char :=
  (splice? text placeholder.start placeholder.stop value.toList).getD text

def substitute {σ : Type} (resolver : Resolver σ) :
    List Placeholder → List Char → σ → Except MigrationError (List Char) × σ
  | [], text, state => (.ok text, state)
  | placeholder :: rest, text, state =>
      match resolver.resolve placeholder.key state with
      | (.error error, state) => (.error error, state)
      | (.ok none, state) => substitute resolver rest text state
      | (.ok (some value), state) =>
          substitute resolver rest (replace text placeholder value) state

/-- Replace the given placeholders of a template from right to left and make a name of
the result. -/
def expandScanned {σ : Type} (template : String) (found : List Placeholder)
    (resolver : Resolver σ) (state : σ) : Except MigrationError String × σ :=
  match substitute resolver found.reverse template.toList state with
  | (.ok text, state) => (.ok (String.ofList (ResourceName.sanitizeChars text)), state)
  | (.error error, state) => (.error error, state)

def expand {σ : Type} (template : String) (resolver : Resolver σ) (state : σ) :
    Except MigrationError String × σ :=
  expandScanned template (Placeholder.scan template) resolver state

def expandPlacement {σ : Type} (template : String) (resolver : Resolver σ) (state : σ) :
    Except MigrationError Placement × σ :=
  match expand template resolver state with
  | (.ok name, state) => (.ok (Placement.ofName name), state)
  | (.error error, state) => (.error error, state)

end Expansion

end MediaMigration
