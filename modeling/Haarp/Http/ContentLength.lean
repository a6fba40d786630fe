import Haarp.Http.AnalyseHeader
import Mathlib.Algebra.Group.Nat.Defs

/-!
# The two readers of the length

`getOnlyContentLength`, by which a request is planned, looks in every line for the text
`Content-Length:`, at most one blank and a number, and takes the first one (`FirstNumber`).
`AnalyseHeader`, by which the body is accepted, takes the last field (`LastLength`).

`readers_agree_iff`: the two agree when both find the same number or both find none.
-/

namespace Haarp

open ConnectionToHTTP

/-! ## The first number -/

/-- At the place `i` of the line are the label, in any case, at most one blank and the number `w`. -/
def NumberAt (label line : Str) (i : Nat) (w : Str) : Prop :=
  ∃ text blank rest, line.drop i = text ++ blank ++ w ++ rest ∧ UpperCase text = UpperCase label ∧
    (blank = [] ∨ blank = [' ']) ∧ w ≠ [] ∧ (∀ d ∈ w, d.isDigit = true) ∧
    ∀ d, rest.head? = some d → d.isDigit = false

/-- The first such place has the number `w`. -/
def LineNumber (label line w : Str) : Prop :=
  ∃ i, NumberAt label line i w ∧ ∀ j < i, ∀ v, ¬ NumberAt label line j v

/-- The number `w` is in the first line of the header that has one; a NUL ends a line. -/
def FirstNumber (header label w : Str) : Prop :=
  ∃ before line after, stringexplode header ['\r', '\n'] = before ++ line :: after ∧
    LineNumber label (line.takeWhile (· ≠ '\x00')) w ∧
    ∀ l ∈ before, ∀ v, ¬ LineNumber label (l.takeWhile (· ≠ '\x00')) v

/-- Every line of the header that starts with `HTTP` has a `200` or a `206`. -/
def NamesStatus (header : Str) : Prop :=
  ∀ line ∈ stringexplode header ['\r', '\n'], ['H', 'T', 'T', 'P'] <+: line →
    ['2', '0', '0'] <:+: line ∨ ['2', '0', '6'] <:+: line

/-- The number that stands behind the label at the front of the line. -/
def numberAhead (label line : Str) : Str :=
  let rest := line.drop label.length
  let rest := if rest.head? = some ' ' then rest.tail else rest
  rest.takeWhile Char.isDigit

/-- The digits in front of a text that does not go on with one. -/
theorem takeWhile_digits {w rest : Str} (hw : ∀ d ∈ w, d.isDigit = true)
    (hrest : ∀ d, rest.head? = some d → d.isDigit = false) :
    (w ++ rest).takeWhile Char.isDigit = w := by
  rw [List.takeWhile_append_of_pos hw]
  cases rest with
  | nil => simp
  | cons d rest => simp [hrest d rfl]

/-- A number behind the label at the front of a line is the one that is read there. -/
theorem numberAhead_of_numberAt {label line w : Str} (h : NumberAt label line 0 w) :
    UpperCase label <+: UpperCase line ∧ numberAhead label line = w ∧ w ≠ [] := by
  obtain ⟨text, blank, rest, heq, htext, hblank, hne, hdigits, hrest⟩ := h
  rw [List.drop_zero] at heq
  subst heq
  have hlength : label.length = text.length := by
    have h := congrArg List.length htext
    simpa [UpperCase] using h.symm
  have hdrop : (text ++ blank ++ w ++ rest).drop label.length = blank ++ (w ++ rest) := by
    rw [hlength, List.append_assoc, List.append_assoc, List.drop_left]
  refine ⟨?_, ?_, hne⟩
  · simp only [UpperCase, List.map_append, List.append_assoc] at htext ⊢
    rw [htext]
    exact List.prefix_append _ _
  · unfold numberAhead
    simp only [hdrop]
    rcases hblank with rfl | rfl
    · obtain ⟨d, digits, rfl⟩ := List.exists_cons_of_ne_nil hne
      have hd : d ≠ ' ' := by
        rintro rfl
        exact absurd (hdigits _ List.mem_cons_self) (by decide)
      rw [if_neg (by simpa using hd), List.nil_append, takeWhile_digits hdigits hrest]
    · rw [if_pos (show ([' '] ++ (w ++ rest)).head? = some ' ' from rfl)]
      exact takeWhile_digits hdigits hrest

/-- What is read behind the label at the front of a line is a number there. -/
theorem numberAt_of_numberAhead {label line : Str}
    (hleads : UpperCase label <+: UpperCase line) (hne : numberAhead label line ≠ []) :
    NumberAt label line 0 (numberAhead label line) := by
  have htext : UpperCase (line.take label.length) = UpperCase label := by
    have htake := List.prefix_iff_eq_take.mp hleads
    rw [UpperCase, UpperCase, List.length_map] at htake
    rw [UpperCase, UpperCase, List.map_take]
    exact htake.symm
  have hrest : ∀ rest : Str, ∀ d, (rest.dropWhile Char.isDigit).head? = some d → d.isDigit = false := by
    intro rest d hd
    have hnot := List.head?_dropWhile_not Char.isDigit rest
    rw [hd] at hnot
    simpa using hnot
  have hdigits : ∀ rest : Str, ∀ d ∈ rest.takeWhile Char.isDigit, d.isDigit = true :=
    fun rest d hd => List.mem_takeWhile_imp hd
  unfold numberAhead at hne ⊢
  dsimp only at hne ⊢
  split at hne
  · rename_i hhead
    rw [if_pos hhead]
    refine ⟨line.take label.length, [' '], (line.drop label.length).tail.dropWhile Char.isDigit, ?_,
      htext, .inr rfl, hne, hdigits _, hrest _⟩
    rw [List.drop_zero, List.append_assoc, List.takeWhile_append_dropWhile, List.append_assoc,
      List.singleton_append, List.cons_head?_tail hhead, List.take_append_drop]
  · rename_i hhead
    rw [if_neg hhead]
    refine ⟨line.take label.length, [], (line.drop label.length).dropWhile Char.isDigit, ?_, htext,
      .inl rfl, hne, hdigits _, hrest _⟩
    rw [List.drop_zero, List.append_assoc, List.takeWhile_append_dropWhile, List.append_nil,
      List.take_append_drop]

theorem numberAt_zero {label line w : Str} :
    NumberAt label line 0 w ↔
      UpperCase label <+: UpperCase line ∧ numberAhead label line = w ∧ w ≠ [] := by
  constructor
  · exact numberAhead_of_numberAt
  · rintro ⟨hleads, rfl, hne⟩
    exact numberAt_of_numberAhead hleads hne

theorem numberAt_succ {label line w : Str} {c : Char} {i : Nat} :
    NumberAt label (c :: line) (i + 1) w ↔ NumberAt label line i w := by
  rw [NumberAt, List.drop_succ_cons]
  rfl

theorem lineNumber_cons {label line w : Str} {c : Char} :
    LineNumber label (c :: line) w ↔ NumberAt label (c :: line) 0 w ∨
      ((∀ v, ¬ NumberAt label (c :: line) 0 v) ∧ LineNumber label line w) := by
  constructor
  · rintro ⟨i, hi, hfirst⟩
    cases i with
    | zero => exact .inl hi
    | succ i =>
      refine .inr ⟨hfirst 0 (Nat.succ_pos i), i, numberAt_succ.mp hi, ?_⟩
      exact fun j hj v hv => hfirst (j + 1) (Nat.succ_lt_succ hj) v (numberAt_succ.mpr hv)
  · rintro (h | ⟨hnot, i, hi, hfirst⟩)
    · exact ⟨0, h, fun j hj => absurd hj (Nat.not_lt_zero j)⟩
    · refine ⟨i + 1, numberAt_succ.mpr hi, fun j hj v hv => ?_⟩
      cases j with
      | zero => exact hnot v hv
      | succ j => exact hfirst j (Nat.lt_of_succ_lt_succ hj) v (numberAt_succ.mp hv)

theorem matchNumber_iff {label line w : Str} :
    matchNumber label line = some w ↔ LineNumber label line w := by
  induction line with
  | nil =>
    refine iff_of_false nofun ?_
    rintro ⟨i, ⟨text, blank, rest, heq, -, -, hne, -⟩, -⟩
    rw [List.drop_nil] at heq
    simp [hne] at heq
  | cons c line ih =>
    rw [lineNumber_cons, numberAt_zero]
    simp only [numberAt_zero]
    by_cases h : UpperCase label <+: UpperCase (c :: line) ∧ numberAhead label (c :: line) ≠ []
    · have hsome : matchNumber label (c :: line) = some (numberAhead label (c :: line)) := by
        rw [matchNumber]
        exact if_pos h
      rw [hsome, Option.some.injEq]
      constructor
      · rintro rfl
        exact .inl ⟨h.1, rfl, h.2⟩
      · rintro (⟨-, rfl, -⟩ | ⟨hnot, -⟩)
        · rfl
        · exact absurd ⟨h.1, rfl, h.2⟩ (hnot _)
    · have hstep : matchNumber label (c :: line) = matchNumber label line := by
        rw [matchNumber]
        exact if_neg h
      rw [hstep, ih]
      constructor
      · refine fun hline => .inr ⟨?_, hline⟩
        rintro v ⟨hleads, rfl, hne⟩
        exact h ⟨hleads, hne⟩
      · rintro (⟨hleads, rfl, hne⟩ | ⟨-, hline⟩)
        · exact absurd ⟨hleads, hne⟩ h
        · exact hline

theorem getValuesHeader_iff {header label w : Str} :
    getValuesHeader header label = some w ↔ FirstNumber header label w := by
  have hnone : ∀ line : Str, matchNumber label line = none ↔ ∀ v, ¬ LineNumber label line v := by
    intro line
    simp only [← matchNumber_iff, Option.eq_none_iff_forall_ne_some, ne_eq]
  rw [getValuesHeader, List.findSome?_eq_some_iff]
  simp only [matchNumber_iff, hnone, FirstNumber]

theorem isForCache_iff {header : Str} : isForCache header = true ↔ NamesStatus header := by
  rw [isForCache, List.all_eq_true, NamesStatus]
  refine forall₂_congr fun line _ => ?_
  rw [decide_eq_true_eq, not_and_or, not_and_or, find_eq_zero, ← find_isSome_iff, ← find_isSome_iff,
    Option.isSome_iff_ne_none, Option.isSome_iff_ne_none, ← imp_iff_not_or]

/-- What `getOnlyContentLength` returns: the first number, if the status is right and there is one. -/
theorem getOnlyContentLength_cases (header : Str) :
    (∃ w, NamesStatus header ∧ FirstNumber header contentLength w ∧
      getOnlyContentLength header = atoll w) ∨
    ((¬ NamesStatus header ∨ ∀ w, ¬ FirstNumber header contentLength w) ∧
      getOnlyContentLength header = -1) := by
  rw [getOnlyContentLength]
  by_cases hstatus : isForCache header = true
  · rw [if_neg (not_not.mpr hstatus)]
    cases hvalue : getValuesHeader header contentLength with
    | none =>
      refine .inr ⟨.inr fun w hw => ?_, rfl⟩
      rw [getValuesHeader_iff.mpr hw] at hvalue
      cases hvalue
    | some w =>
      exact .inl ⟨w, isForCache_iff.mp hstatus, getValuesHeader_iff.mp hvalue, rfl⟩
  · rw [if_pos hstatus]
    exact .inr ⟨.inl fun h => hstatus (isForCache_iff.mpr h), rfl⟩

/-! ## The readers compared -/

theorem ofDigitChars_lt {digits : Str} (hdigits : ∀ d ∈ digits, d.isDigit = true) :
    Nat.ofDigitChars 10 digits 0 < 10 ^ digits.length := by
  induction digits with
  | nil => simp
  | cons d digits ih =>
    have hrest := ih fun e he => hdigits e (List.mem_cons_of_mem d he)
    have hnine : d.toNat - '0'.toNat ≤ 9 := by
      have h := (Char.isDigit_iff_toNat.mp (hdigits d List.mem_cons_self)).2
      exact Nat.sub_le_of_le_add h
    rw [Nat.ofDigitChars_cons, Nat.ofDigitChars_eq_ofDigitChars_zero, Nat.mul_zero, Nat.zero_add,
      List.length_cons, Nat.pow_succ]
    calc 10 ^ digits.length * (d.toNat - '0'.toNat) + Nat.ofDigitChars 10 digits 0
        < 10 ^ digits.length * (d.toNat - '0'.toNat) + 10 ^ digits.length := by omega
      _ ≤ 10 ^ digits.length * 9 + 10 ^ digits.length :=
        Nat.add_le_add_right (Nat.mul_le_mul_left _ hnine) _
      _ = 10 ^ digits.length * 10 := (Nat.mul_succ _ 9).symm

/-- The two readers find the same lengths. -/
def LengthsAgree (header : Str) (ContentLength : Int) : Prop :=
  ∀ n : Int, 0 ≤ n → (getOnlyContentLength header = n ↔ ContentLength = n)

/-- The first number behind `Content-Length:` anywhere in a line is that of the last field
`Content-Length`, or there is neither. -/
def SameLength (header : Str) : Prop :=
  (NamesStatus header ∧ ∃ w, FirstNumber header contentLength w ∧
    LastLength (fieldLines header) (Nat.ofDigitChars 10 w 0)) ∨
  ((¬ NamesStatus header ∨ ∀ w, ¬ FirstNumber header contentLength w) ∧
    ∀ n, ¬ LastLength (fieldLines header) n)

theorem FirstNumber.atoll {header label w : Str} (h : FirstNumber header label w) :
    atoll w = min llongMax (Nat.ofDigitChars 10 w 0) := by
  obtain ⟨before, line, after, -, ⟨i, ⟨text, blank, rest, -, -, -, hne, hdigits, -⟩, -⟩, -⟩ := h
  exact atoll_digits hdigits hne

/-- A field has a number of at most 18 digits. -/
theorem lastLength_lt {lines : List Str} {n : Nat} (h : LastLength lines n) : n < 10 ^ 18 := by
  obtain ⟨before, line, after, -, hfield, -⟩ := h
  obtain ⟨name, spaces, digits, blanks, -, -, -, hdigits, -, hle, -, rfl⟩ := hfield
  exact lt_of_lt_of_le (ofDigitChars_lt hdigits) (Nat.pow_le_pow_right (by decide) hle)

/-- **The readers of the length.** -/
theorem readers_agree_iff {header : Str} {c c' : ConnectionToHTTP} {ret : Int}
    (h : analyseHeader header c.clearVars = (ret, c')) (hret : 0 ≤ ret) :
    LengthsAgree header c'.ContentLength ↔ SameLength header := by
  have hfields := analyseHeader_length h hret
  have hcleared : c.clearVars.ContentLength = -1 := rfl
  rw [hcleared] at hfields
  rcases getOnlyContentLength_cases header with ⟨w, hstatus, hfirst, hvalue⟩ | ⟨hnone, hvalue⟩
  · rw [hfirst.atoll, llongMax] at hvalue
    constructor
    · intro hagree
      have hnew := (hagree _ (by omega)).mp hvalue
      by_cases hlast : ∃ n, LastLength (fieldLines header) n
      · obtain ⟨n, hn⟩ := hlast
        have hlt := lastLength_lt hn
        have heq := hfields.last n hn
        obtain rfl : n = Nat.ofDigitChars 10 w 0 := by omega
        exact .inl ⟨hstatus, w, hfirst, hn⟩
      · have hold := hfields.none (not_exists.mp hlast)
        omega
    · rintro (⟨-, v, hv, hlast⟩ | ⟨hnot, -⟩)
      · obtain rfl : w = v := by
          rw [← getValuesHeader_iff] at hfirst hv
          exact Option.some.inj (hfirst.symm.trans hv)
        have hlt := lastLength_lt hlast
        have heq := hfields.last _ hlast
        intro n hn
        constructor <;> omega
      · rcases hnot with hnot | hnot
        · exact absurd hstatus hnot
        · exact absurd hfirst (hnot w)
  · constructor
    · intro hagree
      refine .inr ⟨hnone, fun n hn => ?_⟩
      have hone := (hagree n (Int.natCast_nonneg n)).mpr (hfields.last n hn)
      omega
    · rintro (⟨hstatus, w, hfirst, -⟩ | ⟨-, hno⟩)
      · exact (hnone.resolve_left (not_not.mpr hstatus) w hfirst).elim
      · intro n hn
        have hold := hfields.none hno
        constructor <;> omega

end Haarp
