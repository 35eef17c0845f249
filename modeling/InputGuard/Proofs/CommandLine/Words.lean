import InputGuard.CommandLine.Command
import InputGuard.Proofs.Text.Blank
import InputGuard.Proofs.Text.Split
import Mathlib.Data.List.Infix

/-! # Words of a command line

Each occurrence of an option belongs with the word after it, whatever that is
(`Pairs`). The last of these words is the option's value and the words that belong to
no occurrence are left, in their order; only an occurrence at the end can be without
a value (`takes_pairs`). A word that was made of a name and a value is read as them
(`namedValue?_pairWord`). -/

namespace InputGuard.CommandLine

open Rule (Extracted)
open Schema (Argument Value)

/-! ## Options -/

/-- A word by itself, or an occurrence of the option with its value. -/
inductive Part where
  | word (w : String)
  | option (value : String)

namespace Part

def word? : Part → Option String
  | .word w => some w
  | .option _ => none

def value? : Part → Option String
  | .word _ => none
  | .option value => some value

end Part

/-- The words from the left, each occurrence of the option taken together with the
word after it. -/
inductive Pairs (option : String) : List String → List Part → Prop where
  | nil : Pairs option [] []
  | word {w : String} {words : List String} {parts : List Part} (other : w ≠ option)
      (tail : Pairs option words parts) : Pairs option (w :: words) (.word w :: parts)
  | option {value : String} {words : List String} {parts : List Part}
      (tail : Pairs option words parts) :
    Pairs option (option :: value :: words) (.option value :: parts)

/-- The words that belong to no occurrence. -/
def unpaired (parts : List Part) : List String := parts.filterMap Part.word?

/-- The value of the last occurrence. -/
def lastValue? (parts : List Part) : Option String := (parts.filterMap Part.value?).getLast?

section

variable (w value : String) (parts parts' : List Part) (words : List String)

@[simp] theorem unpaired_word : unpaired (.word w :: parts) = w :: unpaired parts := rfl

@[simp] theorem unpaired_option : unpaired (.option value :: parts) = unpaired parts := rfl

@[simp] theorem lastValue?_word : lastValue? (.word w :: parts) = lastValue? parts := rfl

@[simp] theorem lastValue?_option :
    lastValue? (.option value :: parts) = some ((lastValue? parts).getD value) := by
  change (value :: parts.filterMap Part.value?).getLast? = _
  rw [List.getLast?_cons]
  rfl

@[simp] theorem unpaired_append : unpaired (parts ++ parts') = unpaired parts ++ unpaired parts' :=
  List.filterMap_append

@[simp] theorem unpaired_words : unpaired (words.map .word) = words := by
  simp [unpaired, List.filterMap_map, Function.comp_def, Part.word?]

@[simp] theorem lastValue?_append :
    lastValue? (parts ++ parts') = (lastValue? parts').or (lastValue? parts) := by
  simp [lastValue?, List.filterMap_append]

@[simp] theorem lastValue?_words : lastValue? (words.map .word) = none := by
  simp [lastValue?, List.filterMap_map, Function.comp_def, Part.value?]

end

/-- The last word is an occurrence for which no word is left. -/
def Valueless (option : String) (words : List String) : Prop :=
  ∃ before parts, words = before ++ [option] ∧ Pairs option before parts

variable {option : String} {words words' : List String} {parts parts' : List Part}

namespace Pairs

theorem of_notMem (h : option ∉ words) : Pairs option words (words.map .word) := by
  induction words with
  | nil => exact .nil
  | cons w words ih =>
    rw [List.mem_cons, not_or] at h
    exact .word (Ne.symm h.1) (ih h.2)

theorem append (h : Pairs option words parts) (h' : Pairs option words' parts') :
    Pairs option (words ++ words') (parts ++ parts') := by
  induction h with
  | nil => exact h'
  | word other _ ih => exact .word other ih
  | option _ ih => exact .option ih

theorem takeOption (h : Pairs option words parts) :
    takeOption option words = some ⟨lastValue? parts, unpaired parts⟩ := by
  induction h with
  | nil => rfl
  | @word w words parts other tail ih =>
    cases words with
    | nil =>
      cases tail
      simp [CommandLine.takeOption, other, unpaired, lastValue?, Part.word?, Part.value?]
    | cons v words => simp [CommandLine.takeOption, other, ih]
  | option _ ih => simp [CommandLine.takeOption, ih]

theorem notMem (h : Pairs option words parts) : option ∉ unpaired parts := by
  induction h with
  | nil => simp [unpaired]
  | word other _ ih => simp [Ne.symm other, ih]
  | option _ ih => simpa using ih

/-- An occurrence without a value is left over behind whatever stands before it. -/
theorem takeOption_concat (h : Pairs option words parts) :
    CommandLine.takeOption option (words ++ [option]) = none := by
  induction h with
  | nil => simp [CommandLine.takeOption]
  | @word w words parts other _ ih =>
    cases words with
    | nil => simp [CommandLine.takeOption, other]
    | cons v words =>
      rw [List.cons_append] at ih ⊢
      simp [CommandLine.takeOption, other, ih]
  | option _ ih => simp [CommandLine.takeOption, ih]

end Pairs

/-- Words can be paired up, or the last one is left without a value. -/
theorem pairs_or_valueless (option : String) (words : List String) :
    (∃ parts, Pairs option words parts) ∨ Valueless option words := by
  fun_induction takeOption option words with
  | case1 => exact .inl ⟨_, .nil⟩
  | case2 => exact .inr ⟨[], [], rfl, .nil⟩
  | case3 w other => exact .inl ⟨_, .word other .nil⟩
  | case4 v words ih =>
    rcases ih with ⟨parts, h⟩ | ⟨before, parts, rfl, h⟩
    · exact .inl ⟨_, .option h⟩
    · exact .inr ⟨_, _, rfl, .option h⟩
  | case5 w v words other ih =>
    rcases ih with ⟨parts, h⟩ | ⟨before, parts, hwords, h⟩
    · exact .inl ⟨_, .word other h⟩
    · exact .inr ⟨w :: before, _, by rw [hwords, List.cons_append], .word other h⟩

/-- What taking an option out of some words gives. -/
structure TakesPairs (option : String) (words : List String) : Prop where
  /-- nothing exactly if the last word is an occurrence without a value -/
  fails : takeOption option words = none ↔ Valueless option words
  /-- and otherwise the value of the last occurrence and the unpaired words in order -/
  succeeds : ∀ taken, takeOption option words = some taken ↔
    ∃ parts, Pairs option words parts ∧ taken = ⟨lastValue? parts, unpaired parts⟩

theorem takes_pairs (option : String) (words : List String) : TakesPairs option words := by
  rcases pairs_or_valueless option words with ⟨parts, h⟩ | ⟨before, parts, rfl, h⟩
  · constructor
    case fails =>
      rw [h.takeOption]
      refine ⟨nofun, ?_⟩
      rintro ⟨before, parts', rfl, h'⟩
      exact absurd h'.takeOption_concat (by simp [h.takeOption])
    case succeeds =>
      intro taken
      rw [h.takeOption]
      constructor
      · rintro ⟨⟩
        exact ⟨parts, h, rfl⟩
      · rintro ⟨parts', h', rfl⟩
        rw [← h.takeOption, h'.takeOption]
  · constructor
    case fails => exact ⟨fun _ => ⟨before, parts, rfl, h⟩, fun _ => h.takeOption_concat⟩
    case succeeds =>
      intro taken
      rw [h.takeOption_concat]
      refine ⟨nofun, ?_⟩
      rintro ⟨parts', h', -⟩
      exact absurd h'.takeOption (by simp [h.takeOption_concat])

/-- The value may be the option's own name, and what follows it is paired anew. -/
example : takeOption "--config" ["--config", "--config", "list"] =
    some ⟨some "--config", ["list"]⟩ := by decide

/-- Without the option all words are left. -/
theorem takeOption_of_notMem (h : option ∉ words) :
    takeOption option words = some ⟨none, words⟩ := by
  rw [(Pairs.of_notMem h).takeOption, lastValue?_words, unpaired_words]

/-- One occurrence among words that are not the option. -/
theorem takeOption_insert (before after : List String) (h : option ∉ before ++ after)
    (value : String) :
    takeOption option (before ++ [option, value] ++ after) =
      some ⟨some value, before ++ after⟩ := by
  rw [List.mem_append, not_or] at h
  have hone : Pairs option [option, value] [.option value] := .option .nil
  have hpairs := ((Pairs.of_notMem h.1).append hone).append (.of_notMem h.2)
  rw [hpairs.takeOption]
  simp

theorem takeOption_first (h : option ∉ words) (value : String) :
    takeOption option ([option, value] ++ words) = some ⟨some value, words⟩ :=
  takeOption_insert [] words h value

theorem takeOption_last (h : option ∉ words) (value : String) :
    takeOption option (words ++ [option, value]) = some ⟨some value, words⟩ := by
  have hinsert := takeOption_insert words [] (by rwa [List.append_nil]) value
  rwa [List.append_nil, List.append_nil] at hinsert

/-! ## Pairs of a name and a value -/

/-- The values that can be written in a word: a text in brackets would be read as a
list, a comma would divide a member and white space around it would get lost, and a
list of one empty text is written as the empty list is. -/
inductive Writable : Extracted → Prop where
  | scalar {text : String} (unbracketed : ∀ inner : String, text ≠ "[" ++ inner ++ "]") :
    Writable (.scalar text)
  | list {members : List String} (undivided : ∀ m ∈ members, ',' ∉ m.toList)
      (trimmed : ∀ m ∈ members, Text.Trimmed m.toList) (not_one_empty : members ≠ [""]) :
    Writable (.list members)

/-- The word that gives a value under a name. -/
def pairWord (name : String) : Extracted → String
  | .scalar text => textWord name text
  | .list members => listWord name members

/-- The value of an argument from which this is extracted. -/
def extractedFrom : Extracted → Value
  | .scalar text => .string text
  | .list members => .list (members.map .string)

theorem argumentValue_scalar {text : String}
    (unbracketed : ∀ inner : String, text ≠ "[" ++ inner ++ "]") :
    argumentValue text.toList = .string text := by
  have hnone : Text.between? '[' ']' text.toList = none := by
    cases htext : text.toList with
    | nil => rfl
    | cons c r =>
      rw [Text.between?, if_neg]
      rintro ⟨rfl, hlast⟩
      obtain ⟨inner, rfl⟩ := List.getLast?_eq_some_iff.mp hlast
      apply unbracketed (String.ofList inner)
      apply String.toList_inj.mp
      simp [htext]
  rw [argumentValue, hnone, String.ofList_toList]

theorem argumentValue_brackets (inner : List Char) :
    argumentValue ('[' :: (inner ++ [']'])) =
      .list (if inner = [] then []
        else (Text.splitOn ',' inner).map fun m => .string (String.ofList (Text.trim m))) := by
  unfold argumentValue
  rw [Text.between?_append]
  cases inner with
  | nil => rfl
  | cons c inner => rfl

theorem argumentValue_list {members : List String} (undivided : ∀ m ∈ members, ',' ∉ m.toList)
    (trimmed : ∀ m ∈ members, Text.Trimmed m.toList) (not_one_empty : members ≠ [""]) :
    argumentValue ("[" ++ ",".intercalate members ++ "]").toList =
      .list (members.map .string) := by
  rw [String.toList_append, String.toList_append, String.toList_intercalate]
  change argumentValue ('[' :: ([','].intercalate (members.map String.toList) ++ [']'])) = _
  rw [argumentValue_brackets]
  cases members with
  | nil => rfl
  | cons m ms =>
    have hinner : [','].intercalate ((m :: ms).map String.toList) ≠ [] := by
      cases ms with
      | nil => simpa using fun h => not_one_empty (by rw [h])
      | cons q ms => simp [List.intercalate_cons_cons]
    have hsplit : Text.splitOn ',' ([','].intercalate ((m :: ms).map String.toList)) =
        (m :: ms).map String.toList := by
      apply Text.splitOn_intercalate
      simpa using undivided
    have hmembers : ∀ q ∈ m :: ms,
        Value.string (String.ofList (Text.trim q.toList)) = .string q := by
      intro q hq
      rw [(trimmed q hq).trim_eq, String.ofList_toList]
    rw [if_neg hinner, hsplit, List.map_map]
    exact congrArg Value.list (List.map_congr_left hmembers)

theorem namedValue?_pairWord {name : String} {e : Extracted} (hname : '=' ∉ name.toList)
    (h : Writable e) : namedValue? (pairWord name e) = some (name, extractedFrom e) := by
  have hword (text : String) : namedValue? (textWord name text) =
      some (name, argumentValue text.toList) := by
    rw [namedValue?, textWord, String.toList_append, String.toList_append, List.append_assoc]
    change (Text.cut '=' (name.toList ++ '=' :: text.toList)).map _ = _
    rw [Text.cut_append '=' _ hname]
    simp
  cases h with
  | scalar unbracketed => rw [pairWord, hword, argumentValue_scalar unbracketed, extractedFrom]
  | list undivided trimmed not_one_empty =>
    rw [pairWord, listWord, hword, argumentValue_list undivided trimmed not_one_empty,
      extractedFrom]

end InputGuard.CommandLine
