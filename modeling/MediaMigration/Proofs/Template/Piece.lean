import Mathlib.Data.List.TakeWhile
import Mathlib.Data.String.Basic
import MediaMigration.Proofs.Text.Ascii
import MediaMigration.Template.Placeholder

/-!
# The pieces of a template

A template is a row of pieces: placeholder tokens, and characters that stand for themselves.
Reading a text from the left gives such a row, and the row written out gives the text back.
The scan for placeholders, which judges every position of the text by itself, finds the
tokens of this row at the bytes where they stand.
-/

namespace MediaMigration

open String (utf8Len)

inductive Piece where
  | literal (c : Char)
  | token (key : List Char)
deriving DecidableEq, Repr

namespace Placeholder

/-! ## Tokens -/

theorem keyAt?_cons_of_ne {c : Char} (hc : c ≠ '$') (rest : List Char) :
    keyAt? (c :: rest) = none := by
  unfold keyAt?
  split
  · next h => exact absurd (List.cons.inj h).1 hc
  · rfl

/-- A text that starts with a token is the written token and what follows it. -/
theorem eq_of_keyAt? {text key : List Char} (h : keyAt? text = some key) :
    (∃ rest, text = '$' :: '{' :: (key ++ '}' :: rest)) ∧
      key ≠ [] ∧ ∀ c ∈ key, isKeyChar c = true := by
  unfold keyAt? at h
  split at h
  · next rest =>
      simp only [Option.ite_none_right_eq_some, Option.some.injEq] at h
      obtain ⟨⟨hne, hclose⟩, rfl⟩ := h
      obtain ⟨tail, htail⟩ : ∃ tail, rest.dropWhile isKeyChar = '}' :: tail := by
        cases hd : rest.dropWhile isKeyChar with
        | nil => simp [hd] at hclose
        | cons c tail =>
            simp only [hd, List.head?_cons, Option.some.injEq] at hclose
            exact ⟨tail, by rw [hclose]⟩
      refine ⟨⟨tail, ?_⟩, hne, fun c hc => List.mem_takeWhile_imp hc⟩
      rw [← htail, List.takeWhile_append_dropWhile]
  · exact absurd h (by simp)

theorem keyAt?_written {key : List Char} (hne : key ≠ []) (hkey : ∀ c ∈ key, isKeyChar c = true)
    (rest : List Char) : keyAt? ('$' :: '{' :: (key ++ '}' :: rest)) = some key := by
  have hstop : isKeyChar '}' = false := by decide
  have htake : (key ++ '}' :: rest).takeWhile isKeyChar = key := by
    rw [List.takeWhile_append_of_pos hkey]
    simp [hstop]
  have hdrop : (key ++ '}' :: rest).dropWhile isKeyChar = '}' :: rest := by
    rw [List.dropWhile_append_of_pos hkey]
    simp [hstop]
  simp [keyAt?, htake, hdrop, hne]

theorem ne_dollar_of_isKeyChar {c : Char} (h : isKeyChar c = true) : c ≠ '$' := by
  rintro rfl
  exact absurd h (by decide)

theorem utf8Size_of_isKeyChar {c : Char} (h : isKeyChar c = true) : c.utf8Size = 1 := by
  have hascii : c.toNat < 128 := by
    rcases Bool.or_eq_true_iff.mp h with hletter | hline
    · exact Text.isAscii_of_isAlphanum hletter
    · rw [eq_of_beq hline]
      decide
  have hle : c.val ≤ 0x7F := UInt32.le_iff_toNat_le.mpr (Nat.le_of_lt_succ hascii)
  simp [Char.utf8Size, hle]

end Placeholder

namespace Piece

/-! ## Reading and writing -/

def written : Piece → List Char
  | literal c => [c]
  | token key => '$' :: '{' :: (key ++ ['}'])

def writtenAll (pieces : List Piece) : List Char :=
  pieces.flatMap written

def keys : List Piece → List String
  | [] => []
  | literal _ :: rest => keys rest
  | token key :: rest => String.ofList key :: keys rest

/-- Read a text from the left: a token where one starts, a literal character elsewhere. -/
def ofText : List Char → List Piece
  | [] => []
  | c :: rest =>
      match Placeholder.keyAt? (c :: rest) with
      | some key => token key :: ofText (rest.drop (key.length + 2))
      | none => literal c :: ofText rest
termination_by text => text.length

/-- The pieces of a row divide a text when the row is the text as it is written, the keys
are made of key characters, and no token of the text is cut up into literal characters. -/
structure Divides (text : List Char) (pieces : List Piece) : Prop where
  whole : writtenAll pieces = text
  keys_wellFormed : ∀ key, token key ∈ pieces → key ≠ [] ∧ ∀ c ∈ key, Placeholder.isKeyChar c = true
  no_token_at_literal : ∀ before c after, pieces = before ++ literal c :: after →
    ∀ key, key ≠ [] → (∀ d ∈ key, Placeholder.isKeyChar d = true) →
      ¬ (token key).written <+: writtenAll (literal c :: after)

@[simp] theorem writtenAll_nil : writtenAll [] = [] := rfl

@[simp] theorem writtenAll_cons (piece : Piece) (rest : List Piece) :
    writtenAll (piece :: rest) = piece.written ++ writtenAll rest := rfl

@[simp] theorem writtenAll_append (first second : List Piece) :
    writtenAll (first ++ second) = writtenAll first ++ writtenAll second := by
  simp [writtenAll]

@[simp] theorem keys_append (first second : List Piece) :
    keys (first ++ second) = keys first ++ keys second := by
  induction first with
  | nil => rfl
  | cons piece rest ih => cases piece <;> simp [keys, ih]

theorem ofText_token {key : List Char} (hne : key ≠ [])
    (hkey : ∀ c ∈ key, Placeholder.isKeyChar c = true) (rest : List Char) :
    ofText ((token key).written ++ rest) = token key :: ofText rest := by
  have hwritten : (token key).written ++ rest = '$' :: '{' :: (key ++ '}' :: rest) := by
    simp [written]
  have hdrop : ('{' :: (key ++ '}' :: rest)).drop (key.length + 2) = rest := by
    have hlength : key.length + 2 = ('{' :: (key ++ ['}'])).length := by simp
    have hsplit : '{' :: (key ++ '}' :: rest) = ('{' :: (key ++ ['}'])) ++ rest := by simp
    rw [hlength, hsplit, List.drop_left]
  rw [hwritten, ofText, Placeholder.keyAt?_written hne hkey]
  simp only [hdrop]

theorem ofText_literal {c : Char} {rest : List Char}
    (h : Placeholder.keyAt? (c :: rest) = none) :
    ofText (c :: rest) = literal c :: ofText rest := by
  rw [ofText, h]

/-- Reading divides every text. -/
theorem divides_ofText (text : List Char) : Divides text (ofText text) := by
  fun_induction ofText text with
  | case1 => exact ⟨rfl, by simp, by simp⟩
  | case2 c rest key hkey ih =>
      obtain ⟨⟨tail, htail⟩, hne, hchars⟩ := Placeholder.eq_of_keyAt? hkey
      have hdrop : rest.drop (key.length + 2) = tail := by
        rw [(List.cons.inj htail).2]
        simp [List.drop_append]
      rw [hdrop] at ih ⊢
      refine ⟨?_, ?_, ?_⟩
      · rw [writtenAll_cons, ih.whole, htail]
        simp [written]
      · intro other hother
        rcases List.mem_cons.mp hother with h | h
        · cases h
          exact ⟨hne, hchars⟩
        · exact ih.keys_wellFormed other h
      · intro before d after hsplit
        cases before with
        | nil => simp at hsplit
        | cons first before => exact ih.no_token_at_literal before d after (List.cons.inj hsplit).2
  | case3 c rest hkey ih =>
      refine ⟨by simp [ih.whole, written], ?_, ?_⟩
      · intro other hother
        rcases List.mem_cons.mp hother with h | h
        · cases h
        · exact ih.keys_wellFormed other h
      · intro before d after hsplit
        cases before with
        | cons first before => exact ih.no_token_at_literal before d after (List.cons.inj hsplit).2
        | nil =>
            obtain ⟨hhead, rfl⟩ := List.cons.inj hsplit
            cases hhead
            rintro key hne hchars ⟨tail, htail⟩
            have hfound := Placeholder.keyAt?_written hne hchars tail
            rw [show '$' :: '{' :: (key ++ '}' :: tail) = c :: rest by
              simpa [written, ih.whole] using htail] at hfound
            rw [hkey] at hfound
            exact absurd hfound (by simp)

/-! ## Where the tokens stand -/

/-- The placeholders of a row of pieces that starts at byte `offset`. -/
def placeholdersFrom (offset : Nat) : List Piece → List Placeholder
  | [] => []
  | literal c :: rest => placeholdersFrom (offset + c.utf8Size) rest
  | token key :: rest =>
      ⟨String.ofList key, offset, offset + key.length + 3⟩ ::
        placeholdersFrom (offset + key.length + 3) rest

theorem utf8Len_written_token {key : List Char}
    (hkey : ∀ c ∈ key, Placeholder.isKeyChar c = true) :
    utf8Len (token key).written = key.length + 3 := by
  have hlength : utf8Len key = key.length := by
    induction key with
    | nil => rfl
    | cons c rest ih =>
        rw [String.utf8Len_cons, ih fun d hd => hkey d (List.mem_cons_of_mem _ hd),
          Placeholder.utf8Size_of_isKeyChar (hkey c (List.mem_cons_self ..)), List.length_cons]
  have hdollar : '$'.utf8Size = 1 := by decide
  have hopen : '{'.utf8Size = 1 := by decide
  have hclose : '}'.utf8Size = 1 := by decide
  simp only [written, String.utf8Len_cons, String.utf8Len_append, String.utf8Len_nil, hlength,
    hdollar, hopen, hclose]

theorem placeholdersFrom_append {first : List Piece}
    (hkeys : ∀ key, token key ∈ first → ∀ c ∈ key, Placeholder.isKeyChar c = true)
    (offset : Nat) (second : List Piece) :
    placeholdersFrom offset (first ++ second) =
      placeholdersFrom offset first ++
        placeholdersFrom (offset + utf8Len (writtenAll first)) second := by
  induction first generalizing offset with
  | nil => rfl
  | cons piece rest ih =>
      have hrest := ih fun key hkey => hkeys key (List.mem_cons_of_mem _ hkey)
      cases piece with
      | literal c =>
          simp only [List.cons_append, placeholdersFrom, hrest, writtenAll_cons, written,
            String.utf8Len_append, String.utf8Len_cons, String.utf8Len_nil]
          congr 2
          omega
      | token key =>
          have hsize := utf8Len_written_token (hkeys key (List.mem_cons_self ..))
          simp only [List.cons_append, placeholdersFrom, hrest, writtenAll_cons,
            String.utf8Len_append, hsize]
          congr 3
          omega

theorem keys_eq_map_placeholdersFrom (offset : Nat) (pieces : List Piece) :
    (placeholdersFrom offset pieces).map Placeholder.key = keys pieces := by
  induction pieces generalizing offset with
  | nil => rfl
  | cons piece rest ih => cases piece <;> simp [placeholdersFrom, keys, ih]

end Piece

namespace Placeholder

theorem scanFrom_append_of_no_dollar {skipped : List Char} (h : ∀ c ∈ skipped, c ≠ '$')
    (offset : Nat) (rest : List Char) :
    scanFrom offset (skipped ++ rest) = scanFrom (offset + utf8Len skipped) rest := by
  induction skipped generalizing offset with
  | nil => rfl
  | cons c others ih =>
      have hc := keyAt?_cons_of_ne (h c (List.mem_cons_self ..)) (others ++ rest)
      rw [List.cons_append, scanFrom, hc]
      simp only [ih (fun d hd => h d (List.mem_cons_of_mem _ hd)), String.utf8Len_cons]
      congr 1
      omega

/-- Judging every position by itself finds the tokens of the pieces, at their bytes. -/
theorem scanFrom_eq_placeholdersFrom (offset : Nat) (text : List Char) :
    scanFrom offset text = Piece.placeholdersFrom offset (Piece.ofText text) := by
  fun_induction Piece.ofText text generalizing offset with
  | case1 => rfl
  | case2 c rest key hkey ih =>
      obtain ⟨⟨tail, htail⟩, -, hchars⟩ := eq_of_keyAt? hkey
      obtain ⟨rfl, hrest⟩ := List.cons.inj htail
      -- behind its dollar sign a token holds no other one
      have hinner : rest = ('{' :: (key ++ ['}'])) ++ tail := by simp [hrest]
      have hfree : ∀ c ∈ '{' :: (key ++ ['}']), c ≠ '$' := by
        intro c hc
        simp only [List.mem_cons, List.mem_append, List.not_mem_nil, or_false] at hc
        rcases hc with rfl | hc | rfl
        · decide
        · exact ne_dollar_of_isKeyChar (hchars c hc)
        · decide
      have hdrop : rest.drop (key.length + 2) = tail := by
        rw [hinner, List.drop_left' (by simp)]
      have hsize := Piece.utf8Len_written_token hchars
      simp only [Piece.written, String.utf8Len_cons] at hsize
      rw [hdrop] at ih ⊢
      rw [scanFrom, hkey]
      simp only [Piece.placeholdersFrom, hinner, scanFrom_append_of_no_dollar hfree, ih,
        String.utf8Len_cons]
      congr 2
      omega
  | case3 c rest hkey ih =>
      rw [scanFrom, hkey]
      simp only [Piece.placeholdersFrom, ih]

end Placeholder

end MediaMigration
