import MediaMigration.Template.Placeholder
import MediaMigration.Error

/-!
# Templates

A template is a text all of whose placeholders are fields of one kind of resource. It is
checked when settings are read, before any resource is touched.
-/

namespace MediaMigration

namespace Template

/-- The first placeholder key of a text that the kind does not accept. -/
def firstUnknownKey? (text : String) (kind : ResourceKind) : Option String :=
  ((Placeholder.scan text).map Placeholder.key).find? fun key => !kind.accepts key

def validate (text : String) (kind : ResourceKind) : Except MigrationError Unit :=
  match firstUnknownKey? text kind with
  | some key => .error (.unknownPlaceholder key kind)
  | none => .ok ()

end Template

structure Template where
  text : String
  kind : ResourceKind
  accepted : Template.firstUnknownKey? text kind = none

namespace Template

def make (text : String) (kind : ResourceKind) : Except MigrationError Template :=
  match h : firstUnknownKey? text kind with
  | some key => .error (.unknownPlaceholder key kind)
  | none => .ok ⟨text, kind, h⟩

def toString (template : Template) : String :=
  template.text

end Template

end MediaMigration
