import Mathlib.Data.List.Pairwise
import MediaMigration.Proofs.Template.Piece
import MediaMigration.Proofs.Text.Utf8

/-!
# Where the tokens of a template stand

A token is a dollar sign and a key in braces. The scan of a template finds each stretch of bytes
that spells a token, and nothing else. A token has no dollar sign behind its first character, so two
of them never overlap, and a search from the left that goes on behind each token it has found
misses none: not behind a dollar sign or a brace that starts no token, and not inside of another
token either.
-/

namespace MediaMigration

open String (utf8Len)

namespace Placeholder

/-! ## Tokens in the bytes of a template -/

/-- Some ASCII letters, digits and underscores: `[A-Za-z0-9_]+`. -/
def IsKey (key : String) : Prop :=
  key ≠ "" ∧ ∀ c ∈ key.toList, isKeyChar c = true

/-- A key as it stands in a template. -/
def tokenOf (key : String) : String :=
  "$\x7b" ++ key ++ "\x7d"

/-- Do the bytes of a template from `start` up to `stop` spell the token of the key? -/
structure StandsIn (placeholder : Placeholder) (template : String) : Prop where
  isKey : IsKey placeholder.key
  stop_le_size : placeholder.stop ≤ template.utf8ByteSize
  spells : template.toUTF8.extract placeholder.start placeholder.stop =
    (tokenOf placeholder.key).toUTF8

@[simp] theorem toList_tokenOf (key : String) :
    (tokenOf key).toList = (Piece.token key.toList).written := by
  simp [tokenOf, Piece.written]

theorem tokenOf_ne_empty (key : String) : tokenOf key ≠ "" := by
  rw [Ne, ← String.toList_eq_nil_iff, toList_tokenOf, Piece.written]
  exact List.cons_ne_nil _ _

theorem IsKey.utf8ByteSize_tokenOf {key : String} (h : IsKey key) :
    (tokenOf key).utf8ByteSize = key.toList.length + 3 := by
  rw [← String.utf8Len_toList, toList_tokenOf, Piece.utf8Len_written_token h.2]

theorem IsKey.toList_ne_nil {key : String} (h : IsKey key) : key.toList ≠ [] := by
  rw [Ne, String.toList_eq_nil_iff]
  exact h.1

theorem isKey_ofList {key : List Char} (hne : key ≠ []) (hkey : ∀ c ∈ key, isKeyChar c = true) :
    IsKey (String.ofList key) := by
  refine ⟨?_, by rwa [String.toList_ofList]⟩
  rwa [Ne, String.ofList_eq_empty_iff]

/-- A token that stands in a template is a part of it. -/
theorem standsIn_iff {placeholder : Placeholder} {template : String} :
    placeholder.StandsIn template ↔
      IsKey placeholder.key ∧ ∃ before after,
        template = before ++ tokenOf placeholder.key ++ after ∧
          placeholder.start = before.utf8ByteSize ∧
          placeholder.stop = placeholder.start + (tokenOf placeholder.key).utf8ByteSize := by
  rw [← Text.extract_eq_iff (tokenOf_ne_empty placeholder.key)]
  exact ⟨fun h => ⟨h.isKey, h.stop_le_size, h.spells⟩, fun h => ⟨h.1, h.2.1, h.2.2⟩⟩

theorem standsIn_of_part {key template before after : String} (hkey : IsKey key)
    (h : template = before ++ tokenOf key ++ after) :
    StandsIn ⟨key, before.utf8ByteSize, before.utf8ByteSize + (tokenOf key).utf8ByteSize⟩ template :=
  standsIn_iff.mpr ⟨hkey, before, after, h, rfl, rfl⟩

/-! ## The scan finds them all -/

theorem keyAt?_eq_some_iff {text key : List Char} :
    keyAt? text = some key ↔
      IsKey (String.ofList key) ∧ ∃ after, text = (tokenOf (String.ofList key)).toList ++ after := by
  have hwritten : ∀ after, (tokenOf (String.ofList key)).toList ++ after =
      '$' :: '{' :: (key ++ '}' :: after) := fun after => by
    simp [Piece.written]
  simp only [hwritten]
  constructor
  · intro h
    obtain ⟨htext, hne, hkey⟩ := eq_of_keyAt? h
    exact ⟨isKey_ofList hne hkey, htext⟩
  · rintro ⟨hkey, after, rfl⟩
    have hne := hkey.toList_ne_nil
    have hchars := hkey.2
    rw [String.toList_ofList] at hne hchars
    exact keyAt?_written hne hchars after

def headFrom (offset : Nat) (text : List Char) : List Placeholder :=
  ((keyAt? text).map fun key => ⟨String.ofList key, offset, offset + key.length + 3⟩).toList

theorem mem_headFrom_iff {placeholder : Placeholder} {offset : Nat} {text : List Char} :
    placeholder ∈ headFrom offset text ↔
      IsKey placeholder.key ∧ (∃ after, text = (tokenOf placeholder.key).toList ++ after) ∧
        placeholder.start = offset ∧
        placeholder.stop = placeholder.start + (tokenOf placeholder.key).utf8ByteSize := by
  rw [headFrom, Option.mem_toList, Option.map_eq_some_iff]
  constructor
  · rintro ⟨key, hkey, rfl⟩
    obtain ⟨hisKey, hafter⟩ := keyAt?_eq_some_iff.mp hkey
    refine ⟨hisKey, hafter, rfl, ?_⟩
    rw [hisKey.utf8ByteSize_tokenOf, String.toList_ofList, Nat.add_assoc]
  · obtain ⟨key, start, stop⟩ := placeholder
    rintro ⟨hisKey, hafter, hstart, hstop⟩
    simp only at hisKey hafter hstart hstop
    rw [hisKey.utf8ByteSize_tokenOf] at hstop
    subst hstart hstop
    refine ⟨key.toList, keyAt?_eq_some_iff.mpr ?_, ?_⟩
    · rw [String.ofList_toList]
      exact ⟨hisKey, hafter⟩
    · rw [String.ofList_toList, Nat.add_assoc]

theorem scanFrom_cons (offset : Nat) (c : Char) (rest : List Char) :
    scanFrom offset (c :: rest) =
      headFrom offset (c :: rest) ++ scanFrom (offset + c.utf8Size) rest := by
  rw [scanFrom, headFrom]
  cases keyAt? (c :: rest) <;> rfl

/-- The scan judges every place of a text, so it finds a token behind anything. -/
theorem mem_scanFrom_iff {placeholder : Placeholder} {offset : Nat} {text : List Char} :
    placeholder ∈ scanFrom offset text ↔
      IsKey placeholder.key ∧ ∃ before after,
        text = before ++ ((tokenOf placeholder.key).toList ++ after) ∧
          placeholder.start = offset + utf8Len before ∧
          placeholder.stop = placeholder.start + (tokenOf placeholder.key).utf8ByteSize := by
  induction text generalizing offset with
  | nil =>
      refine iff_of_false List.not_mem_nil ?_
      rintro ⟨-, before, after, htext, -⟩
      obtain ⟨-, hrest⟩ := List.append_eq_nil_iff.mp htext.symm
      have htoken := (List.append_eq_nil_iff.mp hrest).1
      exact tokenOf_ne_empty placeholder.key (String.toList_eq_nil_iff.mp htoken)
  | cons c rest ih =>
      rw [scanFrom_cons, List.mem_append, mem_headFrom_iff, ih]
      constructor
      · rintro (⟨hkey, ⟨after, htext⟩, hstart, hstop⟩ | ⟨hkey, before, after, hrest, hstart, hstop⟩)
        · exact ⟨hkey, [], after, htext, hstart, hstop⟩
        · refine ⟨hkey, c :: before, after, by rw [hrest, List.cons_append], ?_, hstop⟩
          rw [hstart, String.utf8Len_cons]
          omega
      · rintro ⟨hkey, before, after, htext, hstart, hstop⟩
        cases before with
        | nil => exact .inl ⟨hkey, ⟨after, htext⟩, hstart, hstop⟩
        | cons first before =>
            obtain ⟨rfl, rfl⟩ := List.cons.inj htext
            refine .inr ⟨hkey, before, after, rfl, ?_, hstop⟩
            rw [hstart, String.utf8Len_cons]
            omega

theorem mem_scan_iff {placeholder : Placeholder} {template : String} :
    placeholder ∈ scan template ↔ placeholder.StandsIn template := by
  rw [scan, mem_scanFrom_iff, standsIn_iff]
  refine and_congr_right fun _ => ?_
  constructor
  · rintro ⟨before, after, htext, hstart, hstop⟩
    refine ⟨String.ofList before, String.ofList after, String.toList_inj.mp (htext.trans ?_), ?_,
      hstop⟩
    · simp
    · rw [hstart, String.utf8ByteSize_ofList, Nat.zero_add]
  · rintro ⟨before, after, rfl, hstart, hstop⟩
    refine ⟨before.toList, after.toList, by simp, ?_, hstop⟩
    rw [hstart, String.utf8Len_toList, Nat.zero_add]

/-! ## One behind the other -/

theorem le_start_of_mem_placeholdersFrom {placeholder : Placeholder} {pieces : List Piece}
    {offset : Nat} (h : placeholder ∈ Piece.placeholdersFrom offset pieces) :
    offset ≤ placeholder.start := by
  induction pieces generalizing offset with
  | nil => exact absurd h List.not_mem_nil
  | cons piece rest ih =>
      cases piece with
      | literal c => exact Nat.le_trans (Nat.le_add_right _ _) (ih h)
      | token key =>
          rcases List.mem_cons.mp h with rfl | hrest
          · exact Nat.le_refl _
          · have hle := ih hrest
            omega

/-- Each token of a template starts behind the tokens in front of it. -/
theorem pairwise_scan (template : String) :
    (scan template).Pairwise fun earlier later => earlier.stop ≤ later.start := by
  rw [scan, scanFrom_eq_placeholdersFrom]
  generalize Piece.ofText template.toList = pieces
  generalize 0 = offset
  induction pieces generalizing offset with
  | nil => exact .nil
  | cons piece rest ih =>
      cases piece with
      | literal c => exact ih _
      | token key => exact .cons (fun _ hlater => le_start_of_mem_placeholdersFrom hlater) (ih _)

theorem standsIn_of_scan {template : String} {passed later : List Placeholder} {found : Placeholder}
    (h : scan template = passed ++ found :: later) :
    found.StandsIn template ∧ ∀ other ∈ later, found.stop ≤ other.start := by
  have hpairs := pairwise_scan template
  rw [h] at hpairs
  have hmem : found ∈ scan template := by
    rw [h]
    exact List.mem_append_right _ List.mem_cons_self
  exact ⟨mem_scan_iff.mp hmem, (List.pairwise_cons.mp (List.pairwise_append.mp hpairs).2.1).1⟩

theorem StandsIn.start_lt_stop {placeholder : Placeholder} {template : String}
    (h : placeholder.StandsIn template) : placeholder.start < placeholder.stop := by
  obtain ⟨hkey, _, _, _, _, hstop⟩ := standsIn_iff.mp h
  rw [hstop, hkey.utf8ByteSize_tokenOf]
  omega

/-- At one byte there is at most one token. -/
theorem StandsIn.eq_of_start {first second : Placeholder} {template : String}
    (hfirst : first.StandsIn template) (hsecond : second.StandsIn template)
    (h : first.start = second.start) : first = second := by
  have hapart : (scan template).Pairwise fun earlier later => earlier.start ≠ later.start := by
    refine (pairwise_scan template).imp_of_mem fun {earlier later} hearlier _ hle => ?_
    have hlt := (mem_scan_iff.mp hearlier).start_lt_stop
    omega
  have hsymm : Std.Symm fun earlier later : Placeholder => earlier.start ≠ later.start :=
    ⟨fun _ _ => Ne.symm⟩
  by_contra hne
  exact hapart.forall (mem_scan_iff.mpr hfirst) (mem_scan_iff.mpr hsecond) hne h

/-! ## A search from the left -/

/-- The tokens that a search of a template from the left finds from a byte on, if it goes on behind
each token that it has found: each is the first one to start there, until no more starts. -/
inductive FoundFrom (template : String) : Nat → List Placeholder → Prop
  | none {position : Nat}
      (passed : ∀ other : Placeholder, other.StandsIn template → other.start < position) :
      FoundFrom template position []
  | next {position : Nat} {found : Placeholder} {others : List Placeholder}
      (stands : found.StandsIn template) (ahead : position ≤ found.start)
      (leftmost : ∀ other : Placeholder, other.StandsIn template → position ≤ other.start →
        found.start ≤ other.start)
      (rest : FoundFrom template found.stop others) :
      FoundFrom template position (found :: others)

/-- What the scan has left behind some first tokens is found from there on. -/
theorem foundFrom_of_scan {template : String} {passed left : List Placeholder} {position : Nat}
    (hscan : scan template = passed ++ left) (hpassed : ∀ other ∈ passed, other.stop ≤ position)
    (hleft : ∀ other ∈ left, position ≤ other.start) : FoundFrom template position left := by
  induction left generalizing passed position with
  | nil =>
      refine .none fun other hother => ?_
      have hin := mem_scan_iff.mpr hother
      rw [hscan, List.append_nil] at hin
      exact Nat.lt_of_lt_of_le hother.start_lt_stop (hpassed other hin)
  | cons found others ih =>
      obtain ⟨hstands, hlater⟩ := standsIn_of_scan hscan
      have hlt := hstands.start_lt_stop
      have hahead := hleft found List.mem_cons_self
      have hnext : scan template = (passed ++ [found]) ++ others := by
        rw [hscan, List.append_assoc, List.singleton_append]
      refine .next hstands hahead (fun other hother hposition => ?_)
        (ih hnext (fun other hin => ?_) hlater)
      · -- what was found before starts in front of `position`
        have hin := mem_scan_iff.mpr hother
        rw [hscan] at hin
        rcases List.mem_append.mp hin with hin | hin
        · have hbehind := hpassed other hin
          have hother := hother.start_lt_stop
          omega
        · rcases List.mem_cons.mp hin with rfl | hin
          · exact Nat.le_refl _
          · have hle := hlater other hin
            omega
      · rcases List.mem_append.mp hin with hin | hin
        · have hbehind := hpassed other hin
          omega
        · rw [List.mem_singleton.mp hin]

/-- There is only one outcome of a search from the left. -/
theorem FoundFrom.unique {template : String} {position : Nat} {first second : List Placeholder}
    (hfirst : FoundFrom template position first) (hsecond : FoundFrom template position second) :
    first = second := by
  induction hfirst generalizing second with
  | none passed =>
      cases hsecond with
      | none => rfl
      | next stands ahead =>
          have hlt := passed _ stands
          omega
  | next stands ahead leftmost rest ih =>
      cases hsecond with
      | none passed =>
          have hlt := passed _ stands
          omega
      | next otherStands otherAhead otherLeftmost otherRest =>
          have hle := leftmost _ otherStands otherAhead
          have hge := otherLeftmost _ stands ahead
          obtain rfl := stands.eq_of_start otherStands (Nat.le_antisymm hle hge)
          rw [ih otherRest]

theorem foundFrom_iff {template : String} {found : List Placeholder} :
    FoundFrom template 0 found ↔ found = scan template := by
  have hscan : FoundFrom template 0 (scan template) :=
    foundFrom_of_scan (List.nil_append _).symm (fun _ h => absurd h List.not_mem_nil)
      fun _ _ => Nat.zero_le _
  constructor
  · intro h
    exact h.unique hscan
  · rintro rfl
    exact hscan

/-! ## The text between the tokens -/

/-- The bytes of a text from one on, put together of what stands between the ranges of placeholders
and of the tokens of their keys. -/
def putTogether (bytes : ByteArray) (position : Nat) : List Placeholder → ByteArray
  | [] => bytes.extract position bytes.size
  | placeholder :: rest =>
      bytes.extract position placeholder.start ++ (tokenOf placeholder.key).toUTF8 ++
        putTogether bytes placeholder.stop rest

theorem FoundFrom.putTogether_eq {template : String} {position : Nat} {found : List Placeholder}
    (h : FoundFrom template position found) :
    putTogether template.toUTF8 position found =
      template.toUTF8.extract position template.toUTF8.size := by
  induction h with
  | none => rfl
  | @next position found others stands ahead _ _ ih =>
      have hlt := stands.start_lt_stop
      have hsize : found.stop ≤ template.toUTF8.size := stands.stop_le_size
      rw [putTogether, ih, ← stands.spells,
        ← ByteArray.extract_eq_extract_append_extract _ ahead (Nat.le_of_lt hlt),
        ← ByteArray.extract_eq_extract_append_extract _ (by omega) hsize]

/-- The scan finds a key and a range of bytes exactly if these bytes of the template are the token
of the key. The ranges lie one behind the other and end between characters, the tokens and what
stands between them are the whole template, and a search from the left that goes on behind each
token finds all of them. -/
theorem scan_is_exact (template : String) :
    (∀ placeholder, placeholder ∈ scan template ↔ placeholder.StandsIn template) ∧
      (scan template).Pairwise (fun earlier later => earlier.stop ≤ later.start) ∧
      (∀ placeholder ∈ scan template, placeholder.start < placeholder.stop ∧
        (⟨placeholder.start⟩ : String.Pos.Raw).IsValid template ∧
        (⟨placeholder.stop⟩ : String.Pos.Raw).IsValid template) ∧
      putTogether template.toUTF8 0 (scan template) = template.toUTF8 ∧
      ∀ found, FoundFrom template 0 found ↔ found = scan template := by
  refine ⟨fun _ => mem_scan_iff, pairwise_scan template, fun placeholder hmem => ?_, ?_,
    fun _ => foundFrom_iff⟩
  · have hstands := mem_scan_iff.mp hmem
    exact ⟨hstands.start_lt_stop,
      Text.isValid_of_extract (tokenOf_ne_empty _) hstands.stop_le_size hstands.spells⟩
  · rw [(foundFrom_iff.mpr rfl).putTogether_eq, ByteArray.extract_zero_size]

/-- A token behind a dollar sign and one in a brace that is not closed are found, an empty key not. -/
example : scan "\u00e9$$\x7bA\x7d$\x7b$\x7bB\x7d$\x7b\x7d" = [⟨"A", 3, 7⟩, ⟨"B", 9, 13⟩] := by
  decide +kernel

end Placeholder

end MediaMigration
