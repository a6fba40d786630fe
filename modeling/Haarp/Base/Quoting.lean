import Mathlib.Data.List.Basic
import Mathlib.Tactic.Common

/-!
# Quoted texts

How two languages read a text that is put between quotes: MySQL a string literal, with backslash
escapes on, and the shell the words of a simple command.

A `$` that begins no expansion is left open by the standard of the shell; what it does is the
parameter `plainDollar`, for the character that follows.
-/

namespace Haarp.Base

/-- The single and the double quote. -/
def quote : Char := '\x27'

def doubleQuote : Char := '\x22'

/-! ## String literals -/

/-- What a backslash in front of the character stands for. -/
def unescape (c : Char) : List Char :=
  if c = '0' then [Char.ofNat 0]
  else if c = 'b' then [Char.ofNat 8]
  else if c = 'n' then [Char.ofNat 10]
  else if c = 'r' then [Char.ofNat 13]
  else if c = 't' then [Char.ofNat 9]
  else if c = 'Z' then [Char.ofNat 26]
  else if c = '%' ∨ c = '_' then ['\\', c]
  else [c]

/-- Reads a literal behind its opening quote: the text it denotes, and what follows the closing
quote. -/
def readLiteral : List Char → Option (List Char × List Char)
  | [] => none
  | c :: text =>
    if c = '\\' then
      match text with
      | [] => none
      | d :: text => (readLiteral text).map fun (value, rest) => (unescape d ++ value, rest)
    else if c = quote then
      match text with
      | [] => some ([], [])
      | d :: text =>
        if d = quote then (readLiteral text).map fun (value, rest) => (quote :: value, rest)
        else some ([], d :: text)
    else (readLiteral text).map fun (value, rest) => (c :: value, rest)

/-- A string literal at the front of a text, and what follows it. -/
def readString : List Char → Option (List Char × List Char)
  | [] => none
  | c :: text => if c = quote then readLiteral text else none

theorem readLiteral_cons {c : Char} (hslash : c ≠ '\\') (hquote : c ≠ quote) (text : List Char) :
    readLiteral (c :: text) = (readLiteral text).map fun (value, rest) => (c :: value, rest) := by
  rw [readLiteral.eq_def]
  simp only [hslash, hquote, if_false]

theorem readLiteral_escape (d : Char) (text : List Char) :
    readLiteral ('\\' :: d :: text) =
      (readLiteral text).map fun (value, rest) => (unescape d ++ value, rest) := by
  rw [readLiteral.eq_def]
  rfl

/-- The literal ends. -/
theorem readLiteral_quote {text : List Char} (h : text.head? ≠ some quote) :
    readLiteral (quote :: text) = some ([], text) := by
  cases text with
  | nil => rfl
  | cons d text =>
    have hd : d ≠ quote := fun heq => h (congrArg some heq)
    rw [readLiteral.eq_def]
    simp only [hd, if_false]
    rfl

theorem unescape_of_not_mem {c : Char} (h : c ∉ ['0', 'b', 'n', 'r', 't', 'Z', '%', '_']) :
    unescape c = [c] := by
  simp only [List.mem_cons, List.not_mem_nil, or_false, not_or] at h
  unfold unescape
  simp [h]

theorem unescape_length (c : Char) : (unescape c).length ≤ 2 := by
  unfold unescape
  repeat' split
  all_goals simp

/-- Only a wildcard keeps its backslash. -/
theorem unescape_length_one {c : Char} (hpercent : c ≠ '%') (hline : c ≠ '_') :
    (unescape c).length = 1 := by
  unfold unescape
  rw [if_neg (not_or.mpr ⟨hpercent, hline⟩)]
  repeat' split
  all_goals rfl

theorem map_append_eq_some {text : Option (List Char × List Char)} {front value rest : List Char} :
    (text.map fun (value, rest) => (front ++ value, rest)) = some (front ++ value, rest) ↔
      text = some (value, rest) := by
  constructor
  · intro h
    obtain ⟨⟨value', rest'⟩, htext, heq⟩ := Option.map_eq_some_iff.mp h
    rw [Prod.mk.injEq] at heq
    rw [htext, List.append_cancel_left heq.1, heq.2]
  · intro h
    rw [h]
    rfl

/-! ## The words of a command -/

/-- Which quotes are open. -/
inductive Quotes
  | plain
  | single
  | double
  deriving DecidableEq, Repr

/-- Whether a `$` in front of the character begins an expansion. -/
def expands (c : Char) : Bool :=
  c.isAlphanum ∨ c ∈ ['_', '{', '(', '@', '*', '#', '?', '-', '$', '!']

/-- Whether the character, without quotes, is the shell's: operators, comments, and the beginnings of
all expansions. -/
def active (word : Option (List Char)) (c : Char) : Bool :=
  c ∈ ['\n', '|', '&', ';', '<', '>', '(', ')', '$', '`', '*', '?', '['] ∨
    word = none ∧ c ∈ ['#', '~']

/-- One more character of the word, which begins with it if there is none. -/
def push (word : Option (List Char)) (c : Char) : Option (List Char) := some (word.getD [] ++ [c])

/-- The words of a simple command, behind those that are complete; `word` is the one that is being
read. It is `none` when there is something to be expanded or a second command, or when quotes stay
open. -/
def shWords (plainDollar : Char → Bool) :
    Quotes → Option (List Char) → List Char → Option (List (List Char))
  | .plain, word, [] => some word.toList
  | _, _, [] => none
  | .plain, word, c :: text =>
    if c = '\\' then
      match text with
      | [] => none
      | d :: text => shWords plainDollar .plain (if d = '\n' then word else push word d) text
    else if c = quote then shWords plainDollar .single (some (word.getD [])) text
    else if c = doubleQuote then shWords plainDollar .double (some (word.getD [])) text
    else if c = ' ' ∨ c = '\t' then (shWords plainDollar .plain none text).map (word.toList ++ ·)
    else if active word c then none
    else shWords plainDollar .plain (push word c) text
  | .single, word, c :: text =>
    if c = quote then shWords plainDollar .plain word text
    else shWords plainDollar .single (push word c) text
  | .double, word, c :: text =>
    if c = doubleQuote then shWords plainDollar .plain word text
    else if c = '`' then none
    else if c = '\\' then
      match text with
      | [] => none
      | d :: text =>
        if d = '\n' then shWords plainDollar .double word text
        else if d ∈ ['$', '`', doubleQuote, '\\'] then shWords plainDollar .double (push word d) text
        else shWords plainDollar .double (push (push word c) d) text
    else if c = '$' then
      if text.head?.any fun d => expands d ∨ plainDollar d = false then none
      else shWords plainDollar .double (push word c) text
    else shWords plainDollar .double (push word c) text

/-! ### Characters are only lost -/

/-- The quotes that must still be dropped. -/
def owed (text : List Char) : Quotes → Nat
  | .plain => if doubleQuote ∈ text then 1 else 0
  | _ => 1

@[simp] theorem owed_single (text : List Char) : owed text .single = 1 := rfl

@[simp] theorem owed_double (text : List Char) : owed text .double = 1 := rfl

theorem owed_plain_le (text : List Char) : owed text .plain ≤ 1 := by
  unfold owed
  dsimp only
  split <;> decide

theorem owed_plain_cons {c : Char} (hc : c ≠ doubleQuote) (text : List Char) :
    owed (c :: text) .plain = owed text .plain := by
  simp [owed, Ne.symm hc]

@[simp] theorem getD_push (word : Option (List Char)) (c : Char) :
    (push word c).getD [] = word.getD [] ++ [c] := rfl

theorem flatten_toList (word : Option (List Char)) : word.toList.flatten = word.getD [] := by
  cases word <;> simp

/-- A character of the words stands in the text, and the quotes do not stand in the words. -/
theorem shWords_length {plainDollar : Char → Bool} {quotes : Quotes} {word : Option (List Char)}
    {text : List Char} {words : List (List Char)}
    (h : shWords plainDollar quotes word text = some words) :
    words.flatten.length + owed text quotes ≤ (word.getD []).length + text.length := by
  fun_induction shWords plainDollar quotes word text generalizing words
  case case1 word =>
    cases h
    rw [flatten_toList]
    exact Nat.le_refl _
  case case4 word d text ih =>
    have hle := owed_plain_le ('\\' :: d :: text)
    have hrest := ih h
    split at hrest
    · simp only [List.length_cons]
      omega
    · simp only [getD_push, List.length_append, List.length_cons, List.length_nil] at hrest ⊢
      omega
  case case7 word c text _ _ hc _ ih =>
    obtain ⟨rest, hrest, rfl⟩ := Option.map_eq_some_iff.mp h
    have hle := ih hrest
    rw [owed_plain_cons hc, List.flatten_append, List.length_append, flatten_toList]
    simp only [Option.getD_none, List.length_nil, List.length_cons] at hle ⊢
    omega
  case case9 word c text _ _ hc _ _ ih =>
    have hrest := ih h
    rw [owed_plain_cons hc]
    simp only [getD_push, List.length_append, List.length_cons, List.length_nil] at hrest ⊢
    omega
  case case5 text _ ih | case6 text _ _ ih =>
    have hle := owed_plain_le (quote :: text)
    have hle' := owed_plain_le (doubleQuote :: text)
    have hrest := ih h
    simp only [owed_single, owed_double, Option.getD_some, List.length_cons] at hrest ⊢
    omega
  case case10 text ih | case12 text ih =>
    have hrest := ih h
    simp only [owed_single, owed_double, List.length_cons]
    omega
  case case2 | case3 | case8 | case13 | case14 | case18 => cases h
  all_goals
    rename_i ih
    have hrest := ih h
    simp only [owed_single, owed_double, getD_push, List.length_append, List.length_cons,
      List.length_nil] at hrest ⊢
    omega

/-! ### A text between double quotes -/

/-- Whether `c` stands for itself between double quotes, in front of `d`. -/
def Literal (plainDollar : Char → Bool) (c d : Char) : Prop :=
  c ≠ doubleQuote ∧ c ≠ '`' ∧ (c = '\\' → d ∉ ['\n', '$', '`', doubleQuote, '\\']) ∧
    (c = '$' → expands d = false ∧ plainDollar d = true)

/-- Every character of the text stands for itself between double quotes. -/
def LiteralText (plainDollar : Char → Bool) (text : List Char) : Prop :=
  ∀ before c after, text = before ++ c :: after →
    Literal plainDollar c (after.head?.getD doubleQuote)

variable {plainDollar : Char → Bool}

theorem literalText_nil : LiteralText plainDollar [] := by
  intro before c after h
  exact absurd h.symm (by simp)

theorem literalText_cons (c : Char) (text : List Char) : LiteralText plainDollar (c :: text) ↔
    Literal plainDollar c (text.head?.getD doubleQuote) ∧ LiteralText plainDollar text := by
  constructor
  · intro h
    refine ⟨h [] c text rfl, ?_⟩
    intro before d after heq
    exact h (c :: before) d after (by rw [heq, List.cons_append])
  · intro ⟨hc, h⟩ before d after heq
    cases before with
    | nil =>
      obtain ⟨rfl, rfl⟩ := List.cons.inj heq
      exact hc
    | cons e before => exact h before d after (List.cons.inj heq).2

theorem literal_of_not_mem {c : Char} (h : c ∉ ['$', '`', doubleQuote, '\\']) (d : Char) :
    Literal plainDollar c d := by
  simp only [List.mem_cons, List.not_mem_nil, or_false, not_or] at h
  exact ⟨h.2.2.1, h.2.1, fun heq => absurd heq h.2.2.2, fun heq => absurd heq h.1⟩

theorem head?_append_quote (text : List Char) :
    (text ++ [doubleQuote]).head? = some (text.head?.getD doubleQuote) := by
  cases text <;> rfl

/-- Too few characters are left for a word with the whole text in it. -/
theorem shWords_ne {quotes : Quotes} {word : Option (List Char)} {text whole : List Char}
    (h : (word.getD []).length + text.length < whole.length + owed text quotes) :
    shWords plainDollar quotes word text ≠ some [whole] := by
  intro hwords
  have hle := shWords_length hwords
  rw [List.flatten_singleton] at hle
  omega

section Equations

variable (word : Option (List Char)) (text : List Char)

theorem shWords_plain_cons {c : Char} (h : c ∉ ['\\', quote, doubleQuote, ' ', '\t'])
    (hactive : active word c = false) :
    shWords plainDollar .plain word (c :: text) = shWords plainDollar .plain (push word c) text := by
  simp only [List.mem_cons, List.not_mem_nil, or_false, not_or] at h
  rw [shWords.eq_def]
  simp [h, hactive]

theorem shWords_plain_blank : shWords plainDollar .plain word (' ' :: text) =
    (shWords plainDollar .plain none text).map (word.toList ++ ·) := by
  rw [shWords.eq_def]
  rfl

theorem shWords_plain_quote : shWords plainDollar .plain word (doubleQuote :: text) =
    shWords plainDollar .double (some (word.getD [])) text := by
  rw [shWords.eq_def]
  rfl

theorem shWords_double_quote : shWords plainDollar .double word (doubleQuote :: text) =
    shWords plainDollar .plain word text := by
  rw [shWords.eq_def]
  exact if_pos rfl

theorem shWords_double_back : shWords plainDollar .double word ('`' :: text) = none := by
  rw [shWords.eq_def]
  rfl

theorem shWords_double_slash (d : Char) : shWords plainDollar .double word ('\\' :: d :: text) =
    if d = '\n' then shWords plainDollar .double word text
    else if d ∈ ['$', '`', doubleQuote, '\\'] then shWords plainDollar .double (push word d) text
    else shWords plainDollar .double (push (push word '\\') d) text := by
  rw [shWords.eq_def]
  rfl

theorem shWords_double_dollar : shWords plainDollar .double word ('$' :: text) =
    if text.head?.any fun d => expands d ∨ plainDollar d = false then none
    else shWords plainDollar .double (push word '$') text := by
  rw [shWords.eq_def]
  rfl

/-- An ordinary character. -/
theorem shWords_double_cons {c : Char} (h : c ∉ ['$', '`', doubleQuote, '\\']) :
    shWords plainDollar .double word (c :: text) = shWords plainDollar .double (push word c) text := by
  simp only [List.mem_cons, List.not_mem_nil, or_false, not_or] at h
  rw [shWords.eq_def]
  simp only [h, if_false]

end Equations

/-- A dollar sign between double quotes is kept when nothing is expanded behind it. -/
theorem shWords_double_step_dollar (text word : List Char) :
    shWords plainDollar .double (some word) ('$' :: (text ++ [doubleQuote])) =
        some [word ++ '$' :: text] ↔
      Literal plainDollar '$' (text.head?.getD doubleQuote) ∧
        shWords plainDollar .double (push (some word) '$') (text ++ [doubleQuote]) =
          some [word ++ '$' :: text] := by
  rw [shWords_double_dollar, head?_append_quote, Option.any_some]
  by_cases hnext : expands (text.head?.getD doubleQuote) ∨
      plainDollar (text.head?.getD doubleQuote) = false
  · rw [if_pos (decide_eq_true hnext)]
    refine iff_of_false (fun h => by cases h) fun h => ?_
    have hplain := h.1.2.2.2 rfl
    simp [hplain] at hnext
  · rw [if_neg (by simpa using hnext)]
    simp only [not_or, Bool.not_eq_true, Bool.not_eq_false] at hnext
    refine (and_iff_right ⟨by decide, by decide, ?_, fun _ => hnext⟩).symm
    intro heq
    exact absurd heq (by decide)

/-- A backslash between double quotes is kept when it does not quote what follows. -/
theorem shWords_double_step_slash (text word : List Char) :
    shWords plainDollar .double (some word) ('\\' :: (text ++ [doubleQuote])) =
        some [word ++ '\\' :: text] ↔
      Literal plainDollar '\\' (text.head?.getD doubleQuote) ∧
        shWords plainDollar .double (push (some word) '\\') (text ++ [doubleQuote]) =
          some [word ++ '\\' :: text] := by
  cases text with
  | nil =>
    refine iff_of_false (fun h => ?_) fun h => h.1.2.2.1 rfl (by decide)
    rw [List.nil_append, shWords_double_slash] at h
    cases h
  | cons d text =>
    rw [List.cons_append, shWords_double_slash]
    split
    · rename_i hd
      subst hd
      refine iff_of_false (shWords_ne ?_) fun h => h.1.2.2.1 rfl List.mem_cons_self
      simp only [Option.getD_some, owed_double, List.length_append, List.length_cons,
        List.length_nil]
      omega
    · split
      · rename_i hline hd
        refine iff_of_false (shWords_ne ?_) fun h => h.1.2.2.1 rfl (List.mem_cons_of_mem _ hd)
        simp only [getD_push, Option.getD_some, owed_double, List.length_append,
          List.length_cons, List.length_nil]
        omega
      · -- both characters are kept
        rename_i hline hd
        rw [← shWords_double_cons (push (some word) '\\') _ hd]
        refine (and_iff_right ⟨by decide, by decide, fun _ => ?_, fun heq => ?_⟩).symm
        · rw [List.mem_cons, not_or]
          exact ⟨hline, hd⟩
        · exact absurd heq (by decide)

/-- A character of a text between double quotes stands in the word exactly when it stands for itself. -/
theorem shWords_double_step (c : Char) (text word : List Char) :
    shWords plainDollar .double (some word) (c :: (text ++ [doubleQuote])) = some [word ++ c :: text] ↔
      Literal plainDollar c (text.head?.getD doubleQuote) ∧
        shWords plainDollar .double (push (some word) c) (text ++ [doubleQuote]) =
          some [word ++ c :: text] := by
  by_cases hquote : c = doubleQuote
  · -- the quote is dropped, and so is the one at the end
    subst hquote
    rw [shWords_double_quote]
    refine iff_of_false (shWords_ne ?_) fun h => h.1.1 rfl
    have howed : owed (text ++ [doubleQuote]) .plain = 1 := if_pos (by simp)
    simp [howed]
  by_cases hback : c = '`'
  · subst hback
    rw [shWords_double_back]
    exact iff_of_false (fun h => by cases h) fun h => h.1.2.1 rfl
  by_cases hdollar : c = '$'
  · subst hdollar
    exact shWords_double_step_dollar text word
  by_cases hslash : c = '\\'
  · subst hslash
    exact shWords_double_step_slash text word
  have hplain : c ∉ ['$', '`', doubleQuote, '\\'] := by
    simp only [List.mem_cons, List.not_mem_nil, or_false, not_or]
    exact ⟨hdollar, hback, hquote, hslash⟩
  rw [shWords_double_cons _ _ hplain]
  exact (and_iff_right (literal_of_not_mem hplain _)).symm

/-- **A text between double quotes is one word** when each of its characters stands for itself. -/
theorem shWords_double : ∀ (text word : List Char),
    shWords plainDollar .double (some word) (text ++ [doubleQuote]) = some [word ++ text] ↔
      LiteralText plainDollar text := by
  intro text
  induction text with
  | nil =>
    intro word
    rw [List.append_nil]
    exact iff_of_true rfl literalText_nil
  | cons c text ih =>
    intro word
    have hrest := ih (word ++ [c])
    rw [List.append_assoc, List.singleton_append] at hrest
    rw [literalText_cons, List.cons_append, shWords_double_step, ← hrest]
    rfl

end Haarp.Base
