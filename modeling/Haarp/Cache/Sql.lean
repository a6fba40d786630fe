import Haarp.Base.Quoting
import Haarp.Utils.Search

/-!
# Quoting for the database

`Database::sqlconv`: a backslash in front of each quote, semicolon and double quote. The three
passes come to one (`sqlconv_eq`), but none of them touches a backslash that the text has itself, and
MySQL takes such a one as the beginning of an escape. `denoted_iff` says for which texts this is
harmless.
-/

namespace Haarp

open Base

/-- `Database::sqlconv`. -/
def sqlconv (sql : Str) : Str :=
  let (_, sql) := searchReplace sql [quote] ['\\', quote]
  let (_, sql) := searchReplace sql [';'] ['\\', ';']
  let (_, sql) := searchReplace sql [doubleQuote] ['\\', doubleQuote]
  sql

/-- The text between two quotes is one literal, which denotes the text that was quoted. -/
def Denoted (sql : Str) : Prop := readString (quote :: sqlconv sql ++ [quote]) = some (sql, [])

/-- Behind each backslash stands a character that is quoted, or one that MySQL has no escape for
and leaves with its backslash. -/
def SlashesKept (sql : Str) : Prop :=
  ∀ before after, sql = before ++ '\\' :: after →
    ∃ c ∈ [';', doubleQuote, '%', '_'], after.head? = some c

/-! ## The three passes -/

/-- The characters that `sqlconv` looks for. -/
def special : List Char := [quote, ';', doubleQuote]

/-- One pass over all of them. -/
def escaped (c : Char) : Str := if c ∈ special then ['\\', c] else [c]

theorem sqlconv_eq (sql : Str) : sqlconv sql = sql.flatMap escaped := by
  have hpass : ∀ (c : Char) (text : Str), ∃ (n : Int),
      searchReplace text [c] ['\\', c] =
        (n, text.flatMap fun d => if d = c then ['\\', c] else [d]) := by
    intro c text
    obtain ⟨n, out, heq, h⟩ := @searchReplace_spec [c] ['\\', c] (List.cons_ne_nil _ _)
      (List.cons_ne_nil _ _) text
    exact ⟨n, by rw [heq, h.flatMap]⟩
  obtain ⟨n, hquote⟩ := hpass quote sql
  obtain ⟨n, hsemicolon⟩ := hpass ';' (sql.flatMap fun d => if d = quote then ['\\', quote] else [d])
  obtain ⟨n, hdouble⟩ := hpass doubleQuote _
  unfold sqlconv
  rw [hquote]
  dsimp only
  rw [hsemicolon]
  dsimp only
  rw [hdouble]
  dsimp only
  rw [List.flatMap_assoc, List.flatMap_assoc]
  congr 1
  funext c
  -- no pass sees a character that an earlier one has put in
  by_cases hc : c ∈ special
  · simp only [special, List.mem_cons, List.not_mem_nil, or_false] at hc
    rcases hc with rfl | rfl | rfl <;> decide
  · simp only [special, List.mem_cons, List.not_mem_nil, or_false, not_or] at hc
    simp [escaped, special, hc]

/-- What MySQL reads between the quotes. -/
def literal (sql : Str) : Option (Str × Str) := readLiteral (sql.flatMap escaped ++ [quote])

theorem denoted_eq (sql : Str) : Denoted sql ↔ literal sql = some (sql, []) := by
  unfold Denoted literal
  rw [sqlconv_eq]
  rfl

theorem escaped_of_mem {c : Char} (hc : c ∈ special) : escaped c = ['\\', c] := if_pos hc

theorem escaped_of_not_mem {c : Char} (hc : c ∉ special) : escaped c = [c] := if_neg hc

theorem slash_not_mem_special : '\\' ∉ special := by decide

/-! ## Reading them -/

theorem literal_nil : literal [] = some ([], []) := rfl

/-- A character that is no backslash is read as itself. -/
theorem literal_cons {c : Char} (hslash : c ≠ '\\') (sql : Str) :
    literal (c :: sql) = (literal sql).map fun (value, rest) => (c :: value, rest) := by
  unfold literal
  by_cases hc : c ∈ special
  · have hplain : unescape c = [c] := by
      apply unescape_of_not_mem
      intro h
      simp only [special, List.mem_cons, List.not_mem_nil, or_false] at hc
      rcases hc with rfl | rfl | rfl <;> exact absurd h (by decide)
    rw [List.flatMap_cons, escaped_of_mem hc, List.append_assoc]
    exact (readLiteral_escape c _).trans (by rw [hplain]; rfl)
  · have hquote : c ≠ quote := fun heq => hc (heq ▸ List.mem_cons_self)
    rw [List.flatMap_cons, escaped_of_not_mem hc, List.append_assoc]
    exact readLiteral_cons hslash hquote _

/-- A backslash at the end swallows the closing quote. -/
theorem literal_slash : literal ['\\'] = none := by decide

/-- A quoted character behind a backslash: the inserted backslash is the one that is read, and the
character stands for itself, unless it is the quote. -/
theorem literal_slash_special {c : Char} (hc : c ∈ special) (hquote : c ≠ quote) (sql : Str) :
    literal ('\\' :: c :: sql) =
      (literal sql).map fun (value, rest) => ('\\' :: c :: value, rest) := by
  have hslash : c ≠ '\\' := fun heq => slash_not_mem_special (heq ▸ hc)
  unfold literal
  rw [List.flatMap_cons, List.flatMap_cons, escaped_of_not_mem slash_not_mem_special,
    escaped_of_mem hc]
  refine (readLiteral_escape '\\' _).trans ?_
  refine (congrArg _ (readLiteral_cons hslash hquote _)).trans ?_
  rw [Option.map_map]
  rfl

/-- Behind the quote with a backslash of its own the literal is over, or it is never over. -/
theorem literal_slash_quote (sql : Str) :
    literal ('\\' :: quote :: sql) = none ∨
      ∃ rest, literal ('\\' :: quote :: sql) = some (['\\'], rest) := by
  have hread : literal ('\\' :: quote :: sql) =
      (readLiteral (quote :: (sql.flatMap escaped ++ [quote]))).map fun p =>
        ('\\' :: p.1, p.2) := by
    unfold literal
    rw [List.flatMap_cons, List.flatMap_cons, escaped_of_not_mem slash_not_mem_special,
      escaped_of_mem List.mem_cons_self]
    exact readLiteral_escape '\\' _
  rw [hread]
  cases sql with
  | nil => exact Or.inl rfl
  | cons c sql =>
    -- what follows begins with a backslash, if it is a quote
    have hhead : ((c :: sql).flatMap escaped ++ [quote]).head? ≠ some quote := by
      intro h
      rw [List.flatMap_cons] at h
      by_cases hc : c ∈ special
      · rw [escaped_of_mem hc] at h
        exact absurd (Option.some.inj h) (by decide)
      · rw [escaped_of_not_mem hc] at h
        exact hc (Option.some.inj h ▸ List.mem_cons_self)
    rw [readLiteral_quote hhead]
    exact Or.inr ⟨_, rfl⟩

/-- Any other character behind a backslash is read with it. -/
theorem literal_slash_cons {c : Char} (hc : c ∉ special) (sql : Str) :
    literal ('\\' :: c :: sql) =
      (literal sql).map fun (value, rest) => (unescape c ++ value, rest) := by
  unfold literal
  rw [List.flatMap_cons, List.flatMap_cons, escaped_of_not_mem slash_not_mem_special,
    escaped_of_not_mem hc]
  exact readLiteral_escape c _

/-- No character is denoted that does not stand in the text. -/
theorem literal_length : ∀ (sql : Str) {value rest : Str}, literal sql = some (value, rest) →
    value.length ≤ sql.length
  | [], _, _, h => by
    rw [literal_nil, Option.some.injEq, Prod.mk.injEq] at h
    rw [← h.1]
  | [c], value, rest, h => by
    by_cases hslash : c = '\\'
    · rw [hslash, literal_slash] at h
      cases h
    · rw [literal_cons hslash, literal_nil] at h
      cases h
      rfl
  | c :: d :: sql, value, rest, h => by
    by_cases hslash : c = '\\'
    · subst hslash
      by_cases hquote : d = quote
      · subst hquote
        rcases literal_slash_quote sql with hnone | ⟨rest', hsome⟩
        · rw [hnone] at h
          cases h
        · rw [hsome] at h
          cases h
          exact Nat.le_add_left 1 _
      · have hpair : ∃ front : Str, front.length ≤ 2 ∧ literal ('\\' :: d :: sql) =
            (literal sql).map fun (value, rest) => (front ++ value, rest) := by
          by_cases hd : d ∈ special
          · exact ⟨['\\', d], le_rfl, literal_slash_special hd hquote sql⟩
          · exact ⟨unescape d, unescape_length d, literal_slash_cons hd sql⟩
        obtain ⟨front, hfront, hpair⟩ := hpair
        rw [hpair] at h
        obtain ⟨⟨value', rest'⟩, hrest, heq⟩ := Option.map_eq_some_iff.mp h
        have := literal_length sql hrest
        cases heq
        simp only [List.length_append, List.length_cons]
        omega
    · rw [literal_cons hslash] at h
      obtain ⟨⟨value', rest'⟩, hrest, heq⟩ := Option.map_eq_some_iff.mp h
      have := literal_length (d :: sql) hrest
      cases heq
      exact Nat.succ_le_succ this

/-! ## Which texts are denoted -/

theorem slashesKept_nil : SlashesKept [] := by
  intro before after h
  exact absurd h.symm (by simp)

theorem slashesKept_cons {c : Char} (hslash : c ≠ '\\') (sql : Str) :
    SlashesKept (c :: sql) ↔ SlashesKept sql := by
  constructor
  · intro h before after heq
    exact h (c :: before) after (by rw [heq, List.cons_append])
  · intro h before after heq
    cases before with
    | nil => exact absurd (List.cons.inj heq).1 hslash
    | cons d before => exact h before after (List.cons.inj heq).2

theorem slashesKept_slash (sql : Str) : SlashesKept ('\\' :: sql) ↔
    (∃ c ∈ [';', doubleQuote, '%', '_'], sql.head? = some c) ∧ SlashesKept sql := by
  constructor
  · intro h
    refine ⟨h [] sql rfl, ?_⟩
    intro before after heq
    exact h ('\\' :: before) after (by rw [heq, List.cons_append])
  · intro ⟨hhead, h⟩ before after heq
    cases before with
    | nil => rw [← (List.cons.inj heq).2]; exact hhead
    | cons d before => exact h before after (List.cons.inj heq).2

theorem literal_eq_some_iff : ∀ sql : Str, literal sql = some (sql, []) ↔ SlashesKept sql
  | [] => iff_of_true literal_nil slashesKept_nil
  | [c] => by
    by_cases hslash : c = '\\'
    · subst hslash
      rw [literal_slash, slashesKept_slash]
      simp
    · rw [literal_cons hslash, slashesKept_cons hslash, literal_nil]
      exact iff_of_true rfl slashesKept_nil
  | c :: d :: sql => by
    by_cases hslash : c = '\\'
    · subst hslash
      by_cases hkept : d ∈ [';', doubleQuote, '%', '_']
      · have hd : d ≠ '\\' := fun heq => absurd (heq ▸ hkept) (by decide)
        have hquote : d ≠ quote := fun heq => absurd (heq ▸ hkept) (by decide)
        have hpair : literal ('\\' :: d :: sql) =
            (literal sql).map fun (value, rest) => (['\\', d] ++ value, rest) := by
          by_cases hspecial : d ∈ special
          · exact literal_slash_special hspecial hquote sql
          · rw [literal_slash_cons hspecial]
            have hwild : d = '%' ∨ d = '_' := by
              simp only [special, List.mem_cons, List.not_mem_nil, or_false, not_or] at hspecial hkept
              tauto
            rcases hwild with rfl | rfl <;> rfl
        rw [hpair, slashesKept_slash, slashesKept_cons hd, ← literal_eq_some_iff sql]
        exact map_append_eq_some.trans (and_iff_right ⟨d, hkept, rfl⟩).symm
      · refine iff_of_false ?_ fun h => ?_
        · -- the value is too short
          intro h
          by_cases hquote : d = quote
          · subst hquote
            rcases literal_slash_quote sql with hnone | ⟨rest, hsome⟩
            · rw [hnone] at h
              cases h
            · rw [hsome] at h
              cases h
          · have hspecial : d ∉ special := by
              simp only [special, List.mem_cons, List.not_mem_nil, or_false, not_or] at hkept ⊢
              tauto
            simp only [List.mem_cons, List.not_mem_nil, or_false, not_or] at hkept
            rw [literal_slash_cons hspecial] at h
            obtain ⟨⟨value, rest⟩, hrest, heq⟩ := Option.map_eq_some_iff.mp h
            have hlength := literal_length sql hrest
            have hone := unescape_length_one hkept.2.2.1 hkept.2.2.2
            have hsum := congrArg List.length (Prod.mk.inj heq).1
            simp only [List.length_append, List.length_cons] at hsum
            omega
        · obtain ⟨⟨e, he, hhead⟩, -⟩ := (slashesKept_slash _).mp h
          exact hkept (Option.some.inj hhead ▸ he)
    · have hcons := @map_append_eq_some (literal (d :: sql)) [c] (d :: sql) []
      rw [literal_cons hslash, slashesKept_cons hslash, ← literal_eq_some_iff (d :: sql)]
      exact hcons

/-- **The literal is the quoted text, where `sqlconv` leaves no backslash to MySQL.** -/
theorem denoted_iff (sql : Str) : Denoted sql ↔ SlashesKept sql :=
  (denoted_eq sql).trans (literal_eq_some_iff sql)

/-- A quote behind a backslash ends the literal. -/
theorem not_denoted_slash :
    Char.ofNat 0 ∉ "clip\\\x27--.flv".toList ∧ ¬ Denoted "clip\\\x27--.flv".toList := by
  unfold Denoted
  decide +kernel

end Haarp
