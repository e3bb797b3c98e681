import MediaMigration.Proofs.Settings.Templates
import MediaMigration.Proofs.Template.Occurrence

/-!
# The check of a template, by its text

A text passes the check for a kind of resource exactly if each token that is a part of it has the
name of a field of the kind as its key, whatever the case of the letters. Tokens never overlap, so
the parts of the text that are tokens are those that the scan finds, in the same order, and what the
check complains of is the leftmost one that is no field.
-/

namespace MediaMigration

namespace Template

open Placeholder (IsKey tokenOf)

variable {kind : ResourceKind} {text key : String}

def Holds (text key : String) : Prop :=
  IsKey key ∧ ∃ before after, text = before ++ tokenOf key ++ after

/-- Is this the key of a token of the text that is no field of the kind, with none further left? -/
def LeftmostForeign (kind : ResourceKind) (text key : String) : Prop :=
  ∃ before after, text = before ++ tokenOf key ++ after ∧ IsKey key ∧ ¬ kind.HasKey key ∧
    ∀ earlier later other, text = earlier ++ tokenOf other ++ later → IsKey other →
      ¬ kind.HasKey other → before.utf8ByteSize ≤ earlier.utf8ByteSize

/-- The tokens of a text are the placeholders that the scan finds. -/
theorem holds_iff : Holds text key ↔ ∃ placeholder ∈ Placeholder.scan text, placeholder.key = key := by
  constructor
  · rintro ⟨hkey, before, after, htext⟩
    exact ⟨_, Placeholder.mem_scan_iff.mpr (Placeholder.standsIn_of_part hkey htext), rfl⟩
  · rintro ⟨placeholder, hmem, rfl⟩
    obtain ⟨hkey, before, after, htext, -, -⟩ :=
      Placeholder.standsIn_iff.mp (Placeholder.mem_scan_iff.mp hmem)
    exact ⟨hkey, before, after, htext⟩

theorem usesOnlyKeysOf_iff : UsesOnlyKeysOf kind text ↔ ∀ key, Holds text key → kind.HasKey key := by
  simp only [UsesOnlyKeysOf, ← Piece.keys_ofText, List.forall_mem_map, holds_iff]
  constructor
  · rintro h key ⟨placeholder, hmem, rfl⟩
    exact h placeholder hmem
  · exact fun h placeholder hmem => h placeholder.key ⟨placeholder, hmem, rfl⟩

/-- The first piece of a text that is a token with an unknown key is the leftmost of the parts of
the text that are such tokens. -/
theorem LeftmostUnknown.leftmostForeign (h : LeftmostUnknown kind text key) :
    LeftmostForeign kind text key := by
  obtain ⟨passed, left, hpieces, hknown, hforeign⟩ := h
  have hformed := (Piece.divides_ofText text.toList).keys_wellFormed
  rw [hpieces] at hformed
  have hpassed : ∀ key, Piece.token key ∈ passed → ∀ c ∈ key, Placeholder.isKeyChar c = true :=
    fun key hmem => (hformed key (List.mem_append_left _ hmem)).2
  obtain ⟨found, later, hscan, rfl⟩ : ∃ found later,
      Placeholder.scan text = Piece.placeholdersFrom 0 passed ++ found :: later ∧
        found.key = key := by
    rw [Placeholder.scan, Placeholder.scanFrom_eq_placeholdersFrom, hpieces,
      Piece.placeholdersFrom_append hpassed]
    exact ⟨_, _, rfl, String.ofList_toList⟩
  obtain ⟨hstands, hlater⟩ := Placeholder.standsIn_of_scan hscan
  obtain ⟨hkey, before, after, htext, hstart, -⟩ := Placeholder.standsIn_iff.mp hstands
  refine ⟨before, after, htext, hkey, hforeign,
    fun earlier behind other hother hotherKey hotherForeign => ?_⟩
  have hmem := Placeholder.mem_scan_iff.mpr (Placeholder.standsIn_of_part hotherKey hother)
  rw [hscan] at hmem
  rw [← hstart]
  rcases List.mem_append.mp hmem with hin | hin
  · -- the tokens in front of it have known keys
    refine absurd (hknown other ?_) hotherForeign
    rw [← Piece.keys_eq_map_placeholdersFrom 0 passed]
    exact List.mem_map_of_mem hin
  · rcases List.mem_cons.mp hin with hsame | hin
    · rw [← hsame]
    · exact Nat.le_trans (Nat.le_of_lt hstands.start_lt_stop) (hlater _ hin)

theorem LeftmostForeign.unique {other : String} (h : LeftmostForeign kind text key)
    (hother : LeftmostForeign kind text other) : key = other := by
  obtain ⟨before, after, htext, hkey, hforeign, hleftmost⟩ := h
  obtain ⟨earlier, later, hotherText, hotherKey, hotherForeign, hotherLeftmost⟩ := hother
  have hle := hleftmost earlier later other hotherText hotherKey hotherForeign
  have hge := hotherLeftmost before after key htext hkey hforeign
  have hfirst := Placeholder.standsIn_of_part hkey htext
  have hsecond := Placeholder.standsIn_of_part hotherKey hotherText
  exact congrArg Placeholder.key (hfirst.eq_of_start hsecond (Nat.le_antisymm hle hge))

theorem leftmostUnknown_iff : LeftmostUnknown kind text key ↔ LeftmostForeign kind text key := by
  refine ⟨LeftmostUnknown.leftmostForeign, fun h => ?_⟩
  cases hfirst : firstUnknownKey? text kind with
  | some found =>
      have hunknown := firstUnknownKey?_eq_some_iff.mp hfirst
      rwa [h.unique hunknown.leftmostForeign]
  | none =>
      obtain ⟨before, after, htext, hkey, hforeign, -⟩ := h
      have hall := usesOnlyKeysOf_iff.mp (firstUnknownKey?_eq_none_iff.mp hfirst)
      exact absurd (hall key ⟨hkey, before, after, htext⟩) hforeign

theorem validate_eq_ok_iff_firstUnknownKey? :
    validate text kind = .ok () ↔ firstUnknownKey? text kind = none := by
  rw [firstUnknownKey?_eq_none_iff, validate_eq_ok_iff]

theorem validate_eq_unknown_iff :
    validate text kind = .error (.unknownPlaceholder key kind) ↔
      firstUnknownKey? text kind = some key := by
  rw [validate]
  cases firstUnknownKey? text kind <;> simp

@[simp] theorem make_self (template : Template) :
    make template.text template.kind = .ok template := by
  unfold make
  split
  · next hunknown =>
      rw [template.accepted] at hunknown
      exact absurd hunknown (by simp)
  · rfl

theorem make_eq_ok_iff {template : Template} :
    make text kind = .ok template ↔
      validate text kind = .ok () ∧ template.text = text ∧ template.kind = kind := by
  constructor
  · intro h
    have hvalid := make_eq text kind
    rw [h] at hvalid
    refine ⟨hvalid.symm, ?_⟩
    unfold make at h
    split at h
    · exact absurd h (by simp)
    · cases h
      exact ⟨rfl, rfl⟩
  · rintro ⟨-, rfl, rfl⟩
    exact make_self template

theorem make_eq_error_iff {error : MigrationError} :
    make text kind = .error error ↔ validate text kind = .error error := by
  rw [← make_eq]
  cases make text kind <;> simp [Except.map]

/-- A text passes the check for a kind if and only if every token that is a part of it has a field
name of the kind as its key. If one has not, the check fails with the kind and with the key of the
leftmost such token, as it is written there. Looking for the first unknown key and making a
template come to the same, and a template that is made keeps its text. -/
theorem validation_is_exact (text : String) (kind : ResourceKind) :
    (validate text kind = .ok () ↔ ∀ key, Holds text key → kind.HasKey key) ∧
      (∀ error, validate text kind = .error error ↔
        ∃ key, error = .unknownPlaceholder key kind ∧ LeftmostForeign kind text key) ∧
      (firstUnknownKey? text kind = none ↔ validate text kind = .ok ()) ∧
      (∀ key, firstUnknownKey? text kind = some key ↔
        validate text kind = .error (.unknownPlaceholder key kind)) ∧
      (∀ template, make text kind = .ok template ↔
        validate text kind = .ok () ∧ template.toString = text ∧ template.kind = kind) ∧
      ∀ error, make text kind = .error error ↔ validate text kind = .error error := by
  refine ⟨?_, fun error => ?_, validate_eq_ok_iff_firstUnknownKey?.symm,
    fun _ => validate_eq_unknown_iff.symm, fun _ => make_eq_ok_iff, fun _ => make_eq_error_iff⟩
  · rw [validate_eq_ok_iff, usesOnlyKeysOf_iff]
  · rw [validate_eq_error_iff]
    simp only [leftmostUnknown_iff]

end Template

end MediaMigration
