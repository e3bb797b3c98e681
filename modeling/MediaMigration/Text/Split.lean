/-!
# Splitting at a separator

A text with `n` separators has `n + 1` parts, some of them perhaps empty. Joining the
parts with the separator gives the text back.
-/

namespace MediaMigration

namespace Text

def splitAt (separator : Char) : List Char → List (List Char)
  | [] => [[]]
  | c :: rest =>
      if c = separator then [] :: splitAt separator rest
      else
        match splitAt separator rest with
        | [] => [[c]]
        | part :: parts => (c :: part) :: parts

def joinWith (separator : Char) : List (List Char) → List Char
  | [] => []
  | [part] => part
  | part :: parts => part ++ separator :: joinWith separator parts

@[simp] theorem splitAt_ne_nil (separator : Char) (text : List Char) :
    splitAt separator text ≠ [] := by
  cases text with
  | nil => simp [splitAt]
  | cons c rest =>
      unfold splitAt
      split
      · simp
      · split <;> simp

@[simp] theorem joinWith_splitAt (separator : Char) (text : List Char) :
    joinWith separator (splitAt separator text) = text := by
  induction text with
  | nil => rfl
  | cons c rest ih =>
      unfold splitAt
      split
      · next hc =>
          cases hs : splitAt separator rest with
          | nil => exact absurd hs (splitAt_ne_nil separator rest)
          | cons part parts => simp [joinWith, ← hs, ih, hc]
      · cases hs : splitAt separator rest with
        | nil => exact absurd hs (splitAt_ne_nil separator rest)
        | cons part parts =>
            rw [hs] at ih
            cases parts with
            | nil => simpa [joinWith] using ih
            | cons next others => simpa [joinWith] using ih

theorem not_mem_of_mem_splitAt {separator : Char} {text part : List Char}
    (h : part ∈ splitAt separator text) : separator ∉ part := by
  induction text generalizing part with
  | nil => simp [splitAt] at h; simp [h]
  | cons c rest ih =>
      unfold splitAt at h
      split at h
      · rcases List.mem_cons.mp h with rfl | h
        · simp
        · exact ih h
      · next hc =>
          cases hs : splitAt separator rest with
          | nil => exact absurd hs (splitAt_ne_nil separator rest)
          | cons first parts =>
              simp only [hs] at h
              rcases List.mem_cons.mp h with rfl | h
              · have hfirst : separator ∉ first := ih (by simp [hs])
                simp only [List.mem_cons, not_or]
                exact ⟨Ne.symm hc, hfirst⟩
              · exact ih (by simp [hs, h])

end Text

end MediaMigration
