import Haarp.Base.Quoting
import Haarp.Cache.Place

/-!
# The cleaner

`haarpClean` deletes the files of the rows that it takes out of the database, each with a command of
the shell. `deletesOnly_iff` says for which paths the command is about this one file.
-/

namespace Haarp

open Base

/-- The paths that `delete_by_block` looks for, for one row, by `%s%s/%s/%s`; `none` when `ConvertChar`
throws. -/
def rowPaths (cachedir domain file : Str) : Option (List Str) :=
  (ConvertChar file).map fun subdir =>
    (stringexplodetrim cachedir ['|']).map fun dir => rowPath dir domain subdir file

/-- `sprintf(q, "rm -f \"%s\"", f)` -/
def rmCommand (f : Str) : Str :=
  ['r', 'm', ' ', '-', 'f', ' ', doubleQuote] ++ f ++ [doubleQuote]

/-- What `delete_by_block` passes to `system` for one row. The answers of `file_exists` come in the
order of the questions, since the commands before may change them. -/
def rowCommands (file_exists : List Bool) (cachedir domain file : Str) : Option (List Str) :=
  (rowPaths cachedir domain file).map fun paths =>
    ((paths.zip file_exists).filter (·.2)).map fun (f, _) => rmCommand f

/-- The command is the three words `rm`, `-f` and the path. -/
def DeletesOnly (plainDollar : Char → Bool) (f : Str) : Prop :=
  shWords plainDollar .plain none (rmCommand f) = some [['r', 'm'], ['-', 'f'], f]

theorem shWords_rmCommand (plainDollar : Char → Bool) (f : Str) :
    shWords plainDollar .plain none (rmCommand f) =
      (shWords plainDollar .double (some []) (f ++ [doubleQuote])).map fun words =>
        ['r', 'm'] :: ['-', 'f'] :: words := by
  change shWords plainDollar .plain none
    ('r' :: 'm' :: ' ' :: '-' :: 'f' :: ' ' :: doubleQuote :: (f ++ [doubleQuote])) = _
  rw [shWords_plain_cons _ _ (by decide) (by decide), shWords_plain_cons _ _ (by decide) (by decide),
    shWords_plain_blank, shWords_plain_cons _ _ (by decide) (by decide),
    shWords_plain_cons _ _ (by decide) (by decide), shWords_plain_blank, shWords_plain_quote,
    Option.map_map]
  rfl

theorem shWords_rmCommand_iff (plainDollar : Char → Bool) (f : Str) :
    shWords plainDollar .plain none (rmCommand f) = some [['r', 'm'], ['-', 'f'], f] ↔
      LiteralText plainDollar f := by
  rw [shWords_rmCommand, ← shWords_double f []]
  constructor
  · intro h
    obtain ⟨words, hwords, heq⟩ := Option.map_eq_some_iff.mp h
    rw [hwords, List.nil_append, (List.cons.inj (List.cons.inj heq).2).2]
  · intro h
    rw [h]
    rfl

/-- Each command for a row deletes one of its paths, when these are literal. -/
theorem rowCommands_deletes {plainDollar : Char → Bool} {file_exists : List Bool}
    {cachedir domain file : Str} {commands : List Str}
    (h : rowCommands file_exists cachedir domain file = some commands)
    (hliteral : ∀ paths, rowPaths cachedir domain file = some paths →
      ∀ f ∈ paths, LiteralText plainDollar f) :
    ∀ q ∈ commands, ∃ f, f ∈ (rowPaths cachedir domain file).getD [] ∧
      shWords plainDollar .plain none q = some [['r', 'm'], ['-', 'f'], f] := by
  obtain ⟨paths, hpaths, rfl⟩ := Option.map_eq_some_iff.mp h
  intro q hq
  obtain ⟨⟨f, answer⟩, hf, rfl⟩ := List.mem_map.mp hq
  have hmem : f ∈ paths := (List.of_mem_zip (List.mem_filter.mp hf).1).1
  refine ⟨f, by rw [hpaths]; exact hmem, ?_⟩
  exact (shWords_rmCommand_iff plainDollar f).mpr (hliteral paths hpaths f hmem)

/-- **The rule of the command**: it is about the one path exactly when that is literal between double
quotes. -/
theorem deletesOnly_iff (plainDollar : Char → Bool) (f : Str) :
    DeletesOnly plainDollar f ↔ LiteralText plainDollar f :=
  shWords_rmCommand_iff plainDollar f

/-- A file name with a command substitution in it. -/
theorem not_deletesOnly_dollar :
    rowPaths "/haarp/".toList youtube "$(x).flv".toList =
      some ["/haarp/youtube/1/0_29/$(x).flv".toList] ∧
    ¬ DeletesOnly (fun _ => true) "/haarp/youtube/1/0_29/$(x).flv".toList := by
  unfold DeletesOnly
  decide +kernel

end Haarp
