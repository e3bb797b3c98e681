import Mathlib.Data.List.Infix
import MediaMigration.CommandLine.Arguments

/-!
# Options that stand in a command line

Arguments are read one after the other, and what has been read says which options were given. For
an option without a letter the same can be told from the command line as it is written: a flag is
given if its word stands there, and a value if it stands behind the word and an equals sign or
next to the word. No value is mistaken for an option, since what looks like one is never taken for a
value.
-/

namespace MediaMigration

namespace CommandLine

namespace Flag

def written (option : Flag) : Option String → String
  | none => "--" ++ option.word
  | some value => "--" ++ option.word ++ "=" ++ value

def behindWord : Option String → List Char
  | none => []
  | some value => '=' :: value.toList

theorem toList_written (option : Flag) (value? : Option String) :
    (option.written value?).toList = '-' :: '-' :: (option.word.toList ++ behindWord value?) := by
  have hhyphens : "--".toList = ['-', '-'] := rfl
  have hequals : "=".toList = ['='] := rfl
  cases value? <;> simp [written, behindWord, hhyphens, hequals]

theorem word_injective {first second : Flag} (h : first.word.toList = second.word.toList) :
    first = second := by
  revert h
  cases first <;> cases second <;> decide

theorem equals_not_mem_word (option : Flag) : '=' ∉ option.word.toList := by
  cases option <;> decide

@[simp] theorem takeWhile_word (option : Flag) (value? : Option String) :
    (option.word.toList ++ behindWord value?).takeWhile (· != '=') = option.word.toList := by
  have hword : ∀ c ∈ option.word.toList, (c != '=') = true := by
    intro c hc
    have hother : c ≠ '=' := fun heq => option.equals_not_mem_word (heq ▸ hc)
    simpa using hother
  rw [List.takeWhile_append_of_pos hword]
  cases value? <;> simp [behindWord]

/-- An argument gives one option in one way. -/
theorem written_injective {first second : Flag} {value? other? : Option String}
    (h : first.written value? = second.written other?) : first = second ∧ value? = other? := by
  have hlists := congrArg String.toList h
  rw [toList_written, toList_written] at hlists
  have hbehind := (List.cons.inj (List.cons.inj hlists).2).2
  have hwords := congrArg (List.takeWhile (· != '=')) hbehind
  rw [takeWhile_word, takeWhile_word] at hwords
  obtain rfl := word_injective hwords
  refine ⟨rfl, ?_⟩
  have hvalues := List.append_cancel_left hbehind
  cases value? with
  | none =>
      cases other? with
      | none => rfl
      | some other => exact absurd hvalues (by simp [behindWord])
  | some value =>
      cases other? with
      | none => exact absurd hvalues (by simp [behindWord])
      | some other => rw [String.toList_inj.mp (List.cons.inj hvalues).2]

@[simp] theorem not_isOperand_written (option : Flag) (value? : Option String) :
    isOperand (option.written value?) = false := by
  have hlist := option.toList_written value?
  have hlong : option.written value? ≠ "-" := by
    intro heq
    rw [heq] at hlist
    exact absurd hlist (by simp)
  rw [isOperand, hlist]
  simp [hlong]

end Flag

/-- A value is given for an option, behind an equals sign or as the next argument. -/
def GivesValue (args : List String) (option : Flag) (value : String) : Prop :=
  option.written (some value) ∈ args ∨ [option.written none, value] <:+: args

variable {level : Level} {option : Flag} {given last : Given} {next? : Option String}
  {arg value : String} {args : List String} {tookNext : Bool}

theorem givesValue_cons_iff :
    GivesValue (arg :: args) option value ↔
      arg = option.written (some value) ∨
        (arg = option.written none ∧ args.head? = some value) ∨ GivesValue args option value := by
  have hnext : [option.written none, value] <+: arg :: args ↔
      arg = option.written none ∧ args.head? = some value := by
    rw [List.cons_prefix_cons, eq_comm]
    cases args with
    | nil => simp
    | cons second rest => simp [List.cons_prefix_cons, eq_comm]
  rw [GivesValue, GivesValue, List.mem_cons, List.infix_cons_iff, hnext, eq_comm]
  exact ⟨fun h => by rcases h with (h | h) | h | h <;> simp [h],
    fun h => by rcases h with h | h | h | h <;> simp [h]⟩

theorem ne_written_of_isOperand (h : isOperand arg = true) (option : Flag)
    (value? : Option String) : arg ≠ option.written value? := by
  rintro rfl
  rw [option.not_isOperand_written] at h
  exact Bool.false_ne_true h

theorem givesValue_cons_of_ne (h : ∀ value?, arg ≠ option.written value?) :
    GivesValue (arg :: args) option value ↔ GivesValue args option value := by
  simp [givesValue_cons_iff, h]

/-! ## One option -/

theorem withFlag_ok (h : given.withFlag option = .ok last) :
    last.flags = option :: given.flags ∧ last.values = given.values := by
  unfold Given.withFlag at h
  split at h
  · exact absurd h (by simp)
  · exact absurd h (by simp)
  · split at h
    · exact absurd h (by simp)
    · rw [← Except.ok.inj h]
      exact ⟨rfl, rfl⟩

theorem withValue_ok (h : given.withValue option value = .ok last) :
    last.flags = given.flags ∧ last.values = (option, value) :: given.values ∧
      given.values.lookup option = none := by
  unfold Given.withValue at h
  split at h
  · exact absurd h (by simp)
  · next hfree =>
      rw [← Except.ok.inj h]
      simp only [Bool.or_eq_true, not_or, Bool.not_eq_true, Option.isSome_eq_false_iff,
        Option.isNone_iff_eq_none] at hfree
      exact ⟨rfl, rfl, hfree.1⟩

theorem map_pair_ok {outcome : Except Halt Given} {took : Bool}
    (h : (outcome.map fun given => (given, took)) = .ok (last, tookNext)) :
    outcome = .ok last ∧ tookNext = took := by
  cases outcome with
  | error halt => exact absurd h (by simp [Except.map])
  | ok taken =>
      obtain ⟨rfl, rfl⟩ := Prod.mk.inj (Except.ok.inj h)
      exact ⟨rfl, rfl⟩

/-- How an option is read: as a flag, with the value that was written behind it, or with the next
argument as its value. -/
inductive Takes (given : Given) (next? : Option String) (option : Flag) :
    Option String → Given → Bool → Prop
  | flag {last : Given} (plain : option.takesValue = false)
      (taken : given.withFlag option = .ok last) : Takes given next? option none last false
  | behind {value : String} {last : Given} (valued : option.takesValue = true)
      (taken : given.withValue option value = .ok last) :
      Takes given next? option (some value) last false
  | next {value : String} {last : Given} (valued : option.takesValue = true)
      (found : next? = some value) (operand : isOperand value = true)
      (taken : given.withValue option value = .ok last) :
      Takes given next? option none last true

theorem withNext_ok (hvalued : option.takesValue = true)
    (h : withNext given option next? = .ok (last, tookNext)) :
    Takes given next? option none last tookNext := by
  unfold withNext at h
  split at h
  · exact absurd h (by simp)
  · next value hvalue =>
      obtain ⟨hfound, hoperand⟩ := Option.filter_eq_some_iff.mp hvalue
      obtain ⟨htaken, rfl⟩ := map_pair_ok h
      exact .next hvalued hfound hoperand htaken

theorem readWord_ok {text : List Char}
    (h : readWord level text next? given = .ok (last, tookNext)) :
    ∃ option ∈ level.options, ∃ behind?, Takes given next? option behind? last tookNext ∧
      text = option.word.toList ++ Flag.behindWord behind? := by
  unfold readWord at h
  simp only at h
  split at h
  · exact absurd h (by simp)
  · next option hfind =>
      have hmem := List.mem_of_find?_eq_some hfind
      have hword : option.word.toList = text.takeWhile (· != '=') := by
        simpa using List.find?_some hfind
      have hsplit := List.takeWhile_append_dropWhile (p := (· != '=')) (l := text)
      have hdrop : text.drop option.word.toList.length = text.dropWhile (· != '=') := by
        rw [hword]
        nth_rewrite 2 [← hsplit]
        rw [List.drop_left]
      have htext : text = option.word.toList ++ text.drop option.word.toList.length := by
        rw [hdrop, hword, hsplit]
      rw [← hword] at h
      refine ⟨option, hmem, ?_⟩
      split at h
      · next hvalued hnothing =>
          refine ⟨none, withNext_ok hvalued h, ?_⟩
          rw [hnothing] at htext
          exact htext
      · next first value hvalued hbehind =>
          obtain rfl : first = '=' := by
            have hstop := List.head?_dropWhile_not (· != '=') text
            rw [← hdrop, hbehind] at hstop
            simpa using hstop
          obtain ⟨htaken, rfl⟩ := map_pair_ok h
          refine ⟨some (String.ofList value), .behind hvalued htaken, ?_⟩
          rw [hbehind] at htext
          simpa [Flag.behindWord] using htext
      · next hplain hnothing =>
          obtain ⟨htaken, rfl⟩ := map_pair_ok h
          refine ⟨none, .flag hplain htaken, ?_⟩
          rw [hnothing] at htext
          exact htext
      · exact absurd h (by simp)

theorem Takes.next_operand {behind? : Option String}
    (h : Takes given next? option behind? last true) :
    ∃ value, next? = some value ∧ isOperand value = true := by
  cases h with
  | next _ hfound hoperand _ => exact ⟨_, hfound, hoperand⟩

theorem Takes.others {behind? : Option String} {other : Flag}
    (h : Takes given next? option behind? last tookNext) (hother : other ≠ option) :
    (other ∈ last.flags ↔ other ∈ given.flags) ∧
      last.values.lookup other = given.values.lookup other := by
  have hne : (other == option) = false := beq_false_of_ne hother
  cases h with
  | flag _ htaken =>
      obtain ⟨hflags, hvalues⟩ := withFlag_ok htaken
      rw [hflags, hvalues]
      simp [hother]
  | behind _ htaken =>
      obtain ⟨hflags, hvalues, _⟩ := withValue_ok htaken
      rw [hflags, hvalues, List.lookup_cons, hne]
      simp
  | next _ _ _ htaken =>
      obtain ⟨hflags, hvalues, _⟩ := withValue_ok htaken
      rw [hflags, hvalues, List.lookup_cons, hne]
      simp

theorem readLetters_ok {letters : List Char} (hletter : option.letter? = none)
    (h : readLetters level next? letters given = .ok (last, tookNext)) :
    (option ∈ last.flags ↔ option ∈ given.flags) ∧
      last.values.lookup option = given.values.lookup option ∧
      (tookNext = true → ∃ value, next? = some value ∧ isOperand value = true) := by
  induction letters generalizing given with
  | nil =>
      simp only [readLetters, Except.ok.injEq, Prod.mk.injEq] at h
      obtain ⟨rfl, rfl⟩ := h
      simp
  | cons letter rest ih =>
      unfold readLetters at h
      split at h
      · exact absurd h (by simp)
      · next found hfind =>
          have hfound : found.letter? = some letter := by simpa using List.find?_some hfind
          have hother : option ≠ found := by
            rintro rfl
            simp [hletter] at hfound
          split at h
          · next hvalued =>
              split at h
              · have htakes := withNext_ok hvalued h
                obtain ⟨hflags, hvalues⟩ := htakes.others hother
                refine ⟨hflags, hvalues, ?_⟩
                rintro rfl
                exact htakes.next_operand
              · next c value =>
                  obtain ⟨htaken, rfl⟩ := map_pair_ok h
                  have htakes : Takes given next? found _ last false := .behind hvalued htaken
                  obtain ⟨hflags, hvalues⟩ := htakes.others hother
                  exact ⟨hflags, hvalues, by simp⟩
          · next hplain =>
              split at h
              · exact absurd h (by simp)
              · next taken htaken =>
                  have htakes : Takes given next? found none taken false :=
                    .flag (Bool.eq_false_iff.mpr hplain) htaken
                  obtain ⟨hflags, hvalues⟩ := htakes.others hother
                  obtain ⟨hrest, hrestValues, hnext⟩ := ih h
                  exact ⟨hrest.trans hflags, hrestValues.trans hvalues, hnext⟩

/-- An argument is an option by its word, or it says nothing about an option without a letter. -/
theorem readOptions_ok (hletter : option.letter? = none)
    (h : readOptions level arg next? given = .ok (last, tookNext)) :
    (∃ found ∈ level.options, ∃ behind?, Takes given next? found behind? last tookNext ∧
      arg = found.written behind?) ∨
    ((∀ value?, arg ≠ option.written value?) ∧
      (option ∈ last.flags ↔ option ∈ given.flags) ∧
      last.values.lookup option = given.values.lookup option ∧
      (tookNext = true → ∃ value, next? = some value ∧ isOperand value = true)) := by
  unfold readOptions at h
  split at h
  · next text htext =>
      obtain ⟨found, hmem, behind?, htakes, rfl⟩ := readWord_ok h
      refine .inl ⟨found, hmem, behind?, htakes, ?_⟩
      apply String.toList_inj.mp
      rw [htext, found.toList_written]
  · next hnot =>
      obtain ⟨hflags, hvalues, hnext⟩ := readLetters_ok hletter h
      refine .inr ⟨?_, hflags, hvalues, hnext⟩
      rintro value? rfl
      exact hnot _ (option.toList_written value?)

theorem mem_options_of_readOptions {value? : Option String} (hletter : option.letter? = none)
    (h : readOptions level (option.written value?) next? given = .ok (last, tookNext)) :
    option ∈ level.options := by
  rcases readOptions_ok hletter h with ⟨found, hmem, behind?, _, hwritten⟩ | ⟨hnot, _⟩
  · obtain ⟨rfl, _⟩ := Flag.written_injective hwritten
    exact hmem
  · exact absurd rfl (hnot value?)

theorem isOperand_of_readOptions
    (h : readOptions level arg next? given = .ok (last, true)) :
    ∃ value, next? = some value ∧ isOperand value = true := by
  have hletter : Flag.overwrite.letter? = none := rfl
  rcases readOptions_ok hletter h with ⟨found, _, behind?, htakes, _⟩ | ⟨_, _, _, hnext⟩
  · exact htakes.next_operand
  · exact hnext rfl

theorem mem_flags_of_readOptions (hletter : option.letter? = none)
    (hplain : option.takesValue = false)
    (h : readOptions level arg next? given = .ok (last, tookNext)) :
    option ∈ last.flags ↔ option ∈ given.flags ∨ arg = option.written none := by
  rcases readOptions_ok hletter h with ⟨found, _, behind?, htakes, rfl⟩ | ⟨hnot, hflags, _⟩
  · by_cases hsame : option = found
    · subst hsame
      cases htakes with
      | flag _ htaken =>
          rw [(withFlag_ok htaken).1]
          simp
      | behind hvalued _ => simp [hplain] at hvalued
      | next hvalued _ _ _ => simp [hplain] at hvalued
    · have hother : found.written behind? ≠ option.written none :=
        fun heq => hsame (Flag.written_injective heq).1.symm
      simp [(htakes.others hsame).1, hother]
  · simp [hflags, hnot none]

/-- A value is given behind the word of its option or next to it, and no value was given before. -/
theorem lookup_of_readOptions (hletter : option.letter? = none)
    (hvalued : option.takesValue = true)
    (h : readOptions level arg next? given = .ok (last, tookNext)) :
    last.values.lookup option = some value ↔
      given.values.lookup option = some value ∨ arg = option.written (some value) ∨
        (arg = option.written none ∧ next? = some value) := by
  rcases readOptions_ok hletter h with ⟨found, _, behind?, htakes, rfl⟩ | ⟨hnot, _, hvalues, _⟩
  · by_cases hsame : option = found
    · subst hsame
      have hway : ∀ other?, option.written behind? = option.written other? ↔ behind? = other? :=
        fun other? => ⟨fun heq => (Flag.written_injective heq).2, fun heq => by rw [heq]⟩
      cases htakes with
      | flag hplain _ => simp [hvalued] at hplain
      | behind _ htaken =>
          obtain ⟨_, hvalues, hfree⟩ := withValue_ok htaken
          simp [hvalues, hfree, hway]
      | next _ hfound _ htaken =>
          obtain ⟨_, hvalues, hfree⟩ := withValue_ok htaken
          simp [hvalues, hfree, hway, hfound]
    · have hother : ∀ value?, found.written behind? ≠ option.written value? :=
        fun value? heq => hsame (Flag.written_injective heq).1.symm
      simp [(htakes.others hsame).2, hother]
  · simp [hvalues, hnot]

/-! ## All arguments of a command -/

/-- The arguments of a command without operands are read option by option, and an argument that
was taken as a value is not read again. -/
inductive Reads (level : Level) : List String → Given → Given → Prop
  | nil {given : Given} : Reads level [] given given
  | hyphens {given : Given} : Reads level ["--"] given given
  | option {arg : String} {args : List String} {given read last : Given}
      (first : readOptions level arg args.head? given = .ok (read, false))
      (rest : Reads level args read last) : Reads level (arg :: args) given last
  | withValue {arg value : String} {args : List String} {given read last : Given}
      (first : readOptions level arg (some value) given = .ok (read, true))
      (operand : isOperand value = true)
      (rest : Reads level args read last) : Reads level (arg :: value :: args) given last

theorem reads_of_readArguments (hoperands : level.operands = 0)
    (h : readArguments level false args given = .ok last) : Reads level args given last := by
  have hnone : ∀ (given : Given) (value : String), given.withOperand level value = .error .misuse := by
    intro given value
    simp [Given.withOperand, hoperands]
  generalize hsize : args.length = size
  induction size using Nat.strongRecOn generalizing args given with
  | ind size ih =>
      cases args with
      | nil =>
          rw [readArguments, Except.ok.injEq] at h
          rw [h]
          exact .nil
      | cons arg rest =>
          rw [readArguments] at h
          simp only [Bool.false_or, hnone] at h
          split at h
          · exact absurd h (by simp)
          · split at h
            · next hhyphens =>
                cases rest with
                | nil =>
                    rw [readArguments, Except.ok.injEq] at h
                    rw [h, hhyphens]
                    exact .hyphens
                | cons next others =>
                    rw [readArguments] at h
                    simp [hnone] at h
            · split at h
              · exact absurd h (by simp)
              · next read tookNext hfirst =>
                  cases tookNext with
                  | false =>
                      rw [if_neg Bool.false_ne_true] at h
                      exact .option hfirst (ih rest.length (by simp [← hsize]) h rfl)
                  | true =>
                      obtain ⟨value, hnext, hoperand⟩ := isOperand_of_readOptions hfirst
                      obtain ⟨others, rfl⟩ := List.head?_eq_some_iff.mp hnext
                      rw [if_pos rfl, List.drop_one, List.tail_cons] at h
                      refine .withValue hfirst hoperand (ih others.length ?_ h rfl)
                      simp only [← hsize, List.length_cons]
                      omega

theorem Reads.mem_flags_iff (h : Reads level args given last) (hletter : option.letter? = none)
    (hplain : option.takesValue = false) :
    option ∈ last.flags ↔ option ∈ given.flags ∨ option.written none ∈ args := by
  induction h with
  | nil => simp
  | hyphens =>
      have hother : option.written none ≠ "--" := by
        cases option <;> decide
      simp [hother]
  | option hfirst _ ih =>
      rw [ih, mem_flags_of_readOptions hletter hplain hfirst, List.mem_cons, or_assoc, eq_comm]
  | withValue hfirst hoperand _ ih =>
      have hother := ne_written_of_isOperand hoperand option none
      rw [ih, mem_flags_of_readOptions hletter hplain hfirst, List.mem_cons, List.mem_cons, or_assoc]
      simp [hother.symm, eq_comm]

theorem Reads.lookup_iff (h : Reads level args given last) (hletter : option.letter? = none)
    (hvalued : option.takesValue = true) :
    last.values.lookup option = some value ↔
      given.values.lookup option = some value ∨ GivesValue args option value := by
  induction h with
  | nil => simp [GivesValue]
  | hyphens =>
      have hother : ∀ value?, "--" ≠ option.written value? := by
        intro value? heq
        have hlist := congrArg String.toList heq
        rw [option.toList_written] at hlist
        cases option <;> simp [Flag.word] at hlist
      rw [givesValue_cons_of_ne hother]
      simp [GivesValue]
  | option hfirst _ ih =>
      rw [ih, lookup_of_readOptions hletter hvalued hfirst, givesValue_cons_iff]
      simp only [or_assoc]
  | withValue hfirst hoperand _ ih =>
      rw [ih, lookup_of_readOptions hletter hvalued hfirst, givesValue_cons_iff,
        givesValue_cons_of_ne (ne_written_of_isOperand hoperand option), List.head?_cons]
      simp only [or_assoc]

/-! ## The options of a migration -/

variable {manifest : FilePath} {config? storageRoot? : Option FilePath} {overwrite : Bool}

theorem reads_of_ofNamed {name : String}
    (h : Command.ofNamed name args = .ok (.migrate manifest config? storageRoot? overwrite)) :
    ∃ last : Given, Reads .migrate args {} last ∧
      storageRoot? = (last.values.lookup .storageRoot).map FilePath.mk ∧
      overwrite = last.flags.contains .overwrite := by
  unfold Command.ofNamed at h
  split at h
  · exact absurd h (by simp)
  · next level _ =>
      split at h
      · exact absurd h (by simp)
      · next last hread =>
          unfold Command.ofGiven at h
          split at h
          · exact absurd h (by simp)
          · exact absurd h (by simp)
          · simp only [Except.ok.injEq, Command.migrate.injEq] at h
            obtain ⟨_, _, hroot, hoverwrite⟩ := h
            exact ⟨last, reads_of_readArguments rfl hread, hroot.symm, hoverwrite.symm⟩
          · exact absurd h (by simp)

theorem reads_of_ofArgumentsBehind
    (h : Command.ofArgumentsBehind args given =
      .ok (.migrate manifest config? storageRoot? overwrite)) :
    ∃ before name after last, args = before ++ name :: after ∧ isOperand name = true ∧
      (∀ arg ∈ before, ∀ option : Flag, option.letter? = none →
        ∀ value?, arg ≠ option.written value?) ∧
      Reads .migrate after {} last ∧
      storageRoot? = (last.values.lookup .storageRoot).map FilePath.mk ∧
      overwrite = last.flags.contains .overwrite := by
  induction args generalizing given with
  | nil => exact absurd h (by simp [Command.ofArgumentsBehind])
  | cons arg rest ih =>
      rw [Command.ofArgumentsBehind] at h
      split at h
      · next hname =>
          obtain ⟨last, hreads, hroot, hoverwrite⟩ := reads_of_ofNamed h
          exact ⟨[], arg, rest, last, rfl, hname, by simp, hreads, hroot, hoverwrite⟩
      · split at h
        · exact absurd h (by simp)
        · split at h
          · exact absurd h (by simp)
          · next read tookNext hfirst =>
              obtain ⟨before, name, after, last, rfl, hname, hbefore, hlast⟩ := ih h
              refine ⟨arg :: before, name, after, last, rfl, hname, ?_, hlast⟩
              rw [List.forall_mem_cons]
              refine ⟨?_, hbefore⟩
              rintro option hletter value? rfl
              -- the program has no options without a letter
              have hmem := mem_options_of_readOptions hletter hfirst
              cases option <;> simp_all [Flag.letter?, Level.options]

/-- A command line for a migration gives another root of the store, or has existing blobs replaced,
exactly if the option stands there. -/
theorem options_of_ofArguments
    (h : Command.ofArguments args = .ok (.migrate manifest config? storageRoot? overwrite)) :
    (∀ root, storageRoot? = some ⟨root⟩ ↔ GivesValue args .storageRoot root) ∧
      (overwrite = true ↔ Flag.overwrite.written none ∈ args) := by
  obtain ⟨before, name, after, last, rfl, hname, hbefore, hreads, rfl, rfl⟩ :=
    reads_of_ofArgumentsBehind h
  have hoperand := ne_written_of_isOperand hname
  constructor
  · intro root
    have hskip : GivesValue (before ++ name :: after) .storageRoot root ↔
        GivesValue after .storageRoot root := by
      clear h
      induction before with
      | nil => exact givesValue_cons_of_ne (hoperand .storageRoot)
      | cons arg rest ih =>
          rw [List.forall_mem_cons] at hbefore
          rw [List.cons_append, givesValue_cons_of_ne (hbefore.1 .storageRoot rfl), ih hbefore.2]
    rw [hskip, Option.map_eq_some_iff]
    have hlookup : last.values.lookup .storageRoot = some root ↔ _ := hreads.lookup_iff rfl rfl
    simp only [List.lookup_nil, reduceCtorEq, false_or] at hlookup
    rw [← hlookup]
    simp
  · have hflags : Flag.overwrite ∈ last.flags ↔ _ := hreads.mem_flags_iff rfl rfl
    simp only [List.not_mem_nil, false_or] at hflags
    rw [List.contains_iff_mem, hflags, List.mem_append, List.mem_cons]
    have hnot : Flag.overwrite.written none ∉ before :=
      fun hmem => hbefore _ hmem .overwrite rfl none rfl
    have hother : Flag.overwrite.written none ≠ name := (hoperand .overwrite none).symm
    simp [hnot, hother]

end CommandLine

end MediaMigration
