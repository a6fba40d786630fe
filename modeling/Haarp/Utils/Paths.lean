import Haarp.Utils.Strings
import Mathlib.Algebra.GroupWithZero.Nat
import Mathlib.Data.List.DropRight

/-!
# Places in the cache

`ConvertChar` gives the subdirectory of a file from its name, and `CACHEDIR` is a list of directories
with bars between them, which the proxy and the cleaner take apart each in its own way.

`ConvertChar_iff`: there is none for a name whose digits have a sum of one digit (`SmallName`).
-/

namespace Haarp

/-! ## The subdirectory of a file -/

/-- `str.substr(pos, n)`, which throws behind the end of the text. -/
def substr (pos n : Nat) (str : Str) : Option Str :=
  if pos ≤ str.length then some ((str.drop pos).take n) else none

/-- `itoa`; the numbers here are not negative and fit an `int`, as no header has room for a longer
name. -/
def itoa (val : Nat) : Str := Nat.toDigits 10 val

/-- `atoi` of a text of digits. -/
def atoi (str : Str) : Nat := Nat.ofDigitChars 10 str 0

/-- The digits that `ConvertChar` puts for a character: letters are numbered, and everything else that
is no digit is 27. -/
def charText (c : Char) : Str :=
  if 96 < c.toNat ∧ c.toNat < 123 then itoa (c.toNat - 96) else if c.isDigit then [c] else ['2', '7']

/-- The loop of `ConvertChar`: the sum of the blocks of three digits, without the last one. -/
def resultado : Str → Nat
  | c₁ :: c₂ :: c₃ :: line => if line = [] then 0 else atoi [c₁, c₂, c₃] + resultado line
  | _ => 0

/-- `ConvertChar`; `none` when a `substr` throws. -/
def ConvertChar (lineT : Str) : Option Str := do
  let line := lineT.flatMap charText
  let line := if line.length ≤ 3 then line ++ ['2', '8', '2', '9', '3', '0'] else line
  let tempstr := itoa (resultado line)
  let tempstr := if tempstr.length > 3 then tempstr.drop (tempstr.length - 3) else tempstr
  let one ← substr 1 1 tempstr
  let two ← substr 2 2 tempstr
  let updir := itoa (atoi one + atoi two)
  let updir := if updir.length > 1 then (updir.drop 1).take 1 else updir
  some (updir ++ '/' :: tempstr.take 1 ++ '_' :: tempstr.drop 1)

/-! ## The list of directories -/

/-- `trimstr` -/
def trimstr (str : Str) : Str := (str.dropWhile (· ∈ [' ', '\t'])).rdropWhile (· ∈ [' ', '\t'])

/-- The loop of `stringexplodetrim`. -/
def stringexplodetrimLoop (separator : Str) : Str → Str → List Str
  | piece, [] => if 0 < piece.length then [trimstr piece] else []
  | piece, c :: str =>
    if c ∈ separator then
      if 0 < piece.length then trimstr piece :: stringexplodetrimLoop separator [] str
      else stringexplodetrimLoop separator [] str
    else stringexplodetrimLoop separator (piece ++ [c]) str

/-- `stringexplodetrim` -/
def stringexplodetrim (str separator : Str) : List Str := stringexplodetrimLoop separator [] str

theorem stringexplodetrim_eq (str separator : Str) :
    stringexplodetrim str separator = (stringexplode str separator).map trimstr := by
  have hloop : ∀ piece, stringexplodetrimLoop separator piece str =
      (stringexplodeLoop separator piece str).map trimstr := by
    induction str with
    | nil =>
      intro piece
      rw [stringexplodetrimLoop, stringexplodeLoop]
      split <;> rfl
    | cons c str ih =>
      intro piece
      rw [stringexplodetrimLoop, stringexplodeLoop]
      split
      · split
        · rw [ih, List.map_cons]
        · exact ih []
      · exact ih _
  exact hloop []

/-! ## What the subdirectory looks like -/

theorem itoa_isDigit (n : Nat) : ∀ c ∈ itoa n, c.isDigit = true :=
  fun _ hc => Nat.isDigit_of_mem_toDigits (by decide) (by decide) hc

theorem itoa_length_pos (n : Nat) : 0 < (itoa n).length :=
  List.length_pos_iff.mpr Nat.toDigits_ne_nil

/-- The digits that are left of a sum. -/
def lastThree (tempstr : Str) : Str :=
  if tempstr.length > 3 then tempstr.drop (tempstr.length - 3) else tempstr

theorem lastThree_isDigit {tempstr : Str} (h : ∀ c ∈ tempstr, c.isDigit = true) :
    ∀ c ∈ lastThree tempstr, c.isDigit = true := by
  intro c hc
  unfold lastThree at hc
  split at hc
  · exact h c (List.mem_of_mem_drop hc)
  · exact h c hc

theorem lastThree_length (tempstr : Str) : (lastThree tempstr).length = min 3 tempstr.length := by
  unfold lastThree
  split
  · rw [List.length_drop]
    omega
  · omega

/-- One digit is kept of the sum of the two parts. -/
theorem updir_eq (n : Nat) : ∃ d : Char, d.isDigit = true ∧
    (if (itoa n).length > 1 then ((itoa n).drop 1).take 1 else itoa n) = [d] := by
  have hone : ∀ text : Str, (∀ c ∈ text, c.isDigit = true) → text.length = 1 →
      ∃ d : Char, d.isDigit = true ∧ text = [d] := by
    intro text hdigit hlength
    obtain ⟨d, rfl⟩ := List.length_eq_one_iff.mp hlength
    exact ⟨d, hdigit d List.mem_cons_self, rfl⟩
  apply hone
  · intro c hc
    split at hc
    · exact itoa_isDigit n c (List.mem_of_mem_drop (List.mem_of_mem_take hc))
    · exact itoa_isDigit n c hc
  · have hpos := itoa_length_pos n
    split
    · rw [List.length_take, List.length_drop]
      omega
    · omega

/-- The digits of a name. -/
def digitLine (lineT : Str) : Str :=
  let line := lineT.flatMap charText
  if line.length ≤ 3 then line ++ ['2', '8', '2', '9', '3', '0'] else line

/-- The subdirectory for the digits of a sum. -/
def subdirOf (tempstr : Str) : Option Str :=
  (substr 1 1 tempstr).bind fun one =>
    (substr 2 2 tempstr).bind fun two =>
      let updir := itoa (atoi one + atoi two)
      let updir := if updir.length > 1 then (updir.drop 1).take 1 else updir
      some (updir ++ '/' :: tempstr.take 1 ++ '_' :: tempstr.drop 1)

theorem ConvertChar_eq (lineT : Str) :
    ConvertChar lineT = subdirOf (lastThree (itoa (resultado (digitLine lineT)))) := rfl

/-- **The rule of `ConvertChar`**: a digit, and below it a digit with one or two more behind a
line. -/
theorem ConvertChar_spec {lineT subdir : Str} (h : ConvertChar lineT = some subdir) :
    ∃ d e rest, subdir = d :: '/' :: e :: '_' :: rest ∧ d.isDigit = true ∧ e.isDigit = true ∧
      (∀ c ∈ rest, c.isDigit = true) ∧ 1 ≤ rest.length ∧ rest.length ≤ 2 := by
  rw [ConvertChar_eq] at h
  have hdigit := lastThree_isDigit (itoa_isDigit (resultado (digitLine lineT)))
  have hlength := lastThree_length (itoa (resultado (digitLine lineT)))
  generalize lastThree (itoa (resultado (digitLine lineT))) = tempstr at h hdigit hlength
  obtain ⟨one, -, h⟩ := Option.bind_eq_some_iff.mp h
  obtain ⟨two, htwo, h⟩ := Option.bind_eq_some_iff.mp h
  obtain ⟨d, hd, hupdir⟩ := updir_eq (atoi one + atoi two)
  have hle : 2 ≤ tempstr.length := by
    by_contra hlt
    rw [substr, if_neg hlt] at htwo
    cases htwo
  obtain ⟨e, rest, rfl⟩ := List.exists_cons_of_length_pos (Nat.lt_of_lt_of_le Nat.zero_lt_two hle)
  simp only [hupdir, Option.some.injEq] at h
  refine ⟨d, e, rest, h.symm, hd, hdigit e List.mem_cons_self, ?_, ?_, ?_⟩
  · intro c hc
    exact hdigit c (List.mem_cons_of_mem e hc)
  · exact Nat.le_of_succ_le_succ hle
  · rw [List.length_cons] at hlength
    omega

/-- There is a subdirectory when the sum has two digits. -/
theorem exists_ConvertChar_iff (lineT : Str) :
    (∃ subdir, ConvertChar lineT = some subdir) ↔ 10 ≤ resultado (digitLine lineT) := by
  have hone : (itoa (resultado (digitLine lineT))).length ≤ 1 ↔ resultado (digitLine lineT) < 10 := by
    unfold itoa
    rw [Nat.length_toDigits_le_iff (by decide) (by decide), Nat.pow_one]
  have hlength := lastThree_length (itoa (resultado (digitLine lineT)))
  rw [ConvertChar_eq, subdirOf]
  constructor
  · rintro ⟨subdir, h⟩
    obtain ⟨one, -, h⟩ := Option.bind_eq_some_iff.mp h
    obtain ⟨two, htwo, -⟩ := Option.bind_eq_some_iff.mp h
    by_contra hsum
    rw [substr, if_neg (by omega)] at htwo
    cases htwo
  · intro hsum
    have hle : 2 ≤ (lastThree (itoa (resultado (digitLine lineT)))).length := by omega
    rw [substr, if_pos (Nat.le_of_succ_le hle), Option.bind_some, substr, if_pos hle]
    exact ⟨_, rfl⟩

/-! ## Names with an ending -/

/-- The digits of `.flv` are enough for a sum of three digits. -/
theorem resultado_flv : ∀ line : Str,
    100 ≤ resultado (line ++ ['2', '7', '6', '1', '2', '2', '2'])
  | [] => by decide
  | [a] => by
    have hline : resultado ([a] ++ ['2', '7', '6', '1', '2', '2', '2']) = atoi [a, '2', '7'] + 612 :=
      rfl
    omega
  | [a, b] => by
    have hline : resultado ([a, b] ++ ['2', '7', '6', '1', '2', '2', '2']) =
        atoi [a, b, '2'] + 761 := rfl
    omega
  | a :: b :: c :: line => by
    have ih := resultado_flv line
    have hne : line ++ ['2', '7', '6', '1', '2', '2', '2'] ≠ [] :=
      List.append_ne_nil_of_right_ne_nil _ (List.cons_ne_nil _ _)
    rw [List.cons_append, List.cons_append, List.cons_append, resultado, if_neg hne]
    omega

/-- **`ConvertChar` has a subdirectory for every video.** -/
theorem ConvertChar_flv (name : Str) :
    ∃ subdir, ConvertChar (name ++ ['.', 'f', 'l', 'v']) = some subdir := by
  have hline : digitLine (name ++ ['.', 'f', 'l', 'v']) =
      name.flatMap charText ++ ['2', '7', '6', '1', '2', '2', '2'] := by
    have happend : (name ++ ['.', 'f', 'l', 'v']).flatMap charText =
        name.flatMap charText ++ ['2', '7', '6', '1', '2', '2', '2'] := by
      rw [List.flatMap_append]
      rfl
    unfold digitLine
    rw [happend]
    refine if_neg ?_
    rw [List.length_append, not_le]
    exact Nat.lt_add_left _ (by decide)
  rw [exists_ConvertChar_iff, hline]
  exact Nat.le_trans (by decide) (resultado_flv (name.flatMap charText))

/-! ## Names without a subdirectory -/

/-- A subdirectory: a digit, and below it a digit with one or two more behind a line. -/
def Subdirectory (subdir : Str) : Prop :=
  ∃ d e rest, subdir = d :: '/' :: e :: '_' :: rest ∧ d.isDigit = true ∧ e.isDigit = true ∧
    (∀ c ∈ rest, c.isDigit = true) ∧ 1 ≤ rest.length ∧ rest.length ≤ 2

/-- The digits of the name are blocks `00d` up to the last block, and these add up to one digit. -/
def SmallName (lineT : Str) : Prop :=
  ∃ blocks last : Str, lineT.flatMap charText = blocks.flatMap (fun d => ['0', '0', d]) ++ last ∧
    blocks ≠ [] ∧ 1 ≤ last.length ∧ last.length ≤ 3 ∧
    (blocks.map fun d => d.toNat - '0'.toNat).sum < 10

theorem charText_isDigit (c : Char) : ∀ d ∈ charText c, d.isDigit = true := by
  intro d hd
  unfold charText at hd
  split at hd
  · exact itoa_isDigit _ d hd
  · split at hd
    · next hdigit => rwa [List.mem_singleton.mp hd]
    · simp only [List.mem_cons, List.not_mem_nil, or_false] at hd
      rcases hd with rfl | rfl <;> rfl

theorem atoi_block (a b c : Char) :
    atoi [a, b, c] = 100 * (a.toNat - '0'.toNat) + 10 * (b.toNat - '0'.toNat) + (c.toNat - '0'.toNat) := by
  simp only [atoi, Nat.ofDigitChars_cons, Nat.ofDigitChars_nil]
  omega

/-- The sum of small blocks. -/
theorem resultado_blocks {last : Str} (hpos : 1 ≤ last.length) (hle : last.length ≤ 3) (blocks : Str) :
    resultado (blocks.flatMap (fun d => ['0', '0', d]) ++ last) =
      (blocks.map fun d => d.toNat - '0'.toNat).sum := by
  induction blocks with
  | nil =>
    rw [List.flatMap_nil, List.nil_append]
    match last, hpos, hle with
    | [_], _, _ => rfl
    | [_, _], _, _ => rfl
    | [_, _, _], _, _ => rfl
  | cons d blocks ih =>
    have hne : blocks.flatMap (fun d => ['0', '0', d]) ++ last ≠ [] :=
      List.append_ne_nil_of_right_ne_nil _ (List.ne_nil_of_length_pos hpos)
    rw [List.flatMap_cons, List.append_assoc, List.map_cons, List.sum_cons, ← ih]
    change resultado ('0' :: '0' :: d :: (blocks.flatMap (fun d => ['0', '0', d]) ++ last)) = _
    rw [resultado, if_neg hne, atoi_block]
    simp

/-- A sum of one digit has small blocks. -/
theorem blocks_of_resultado : ∀ line : Str, line ≠ [] → (∀ c ∈ line, c.isDigit = true) →
    resultado line < 10 → ∃ blocks last : Str,
      line = blocks.flatMap (fun d => ['0', '0', d]) ++ last ∧ 1 ≤ last.length ∧ last.length ≤ 3
  | [], hne, _, _ => absurd rfl hne
  | [a], _, _, _ => ⟨[], [a], rfl, by simp, by simp⟩
  | [a, b], _, _, _ => ⟨[], [a, b], rfl, by simp, by simp⟩
  | [a, b, c], _, _, _ => ⟨[], [a, b, c], rfl, by simp, by simp⟩
  | a :: b :: c :: e :: line, _, hdigit, hsum => by
    rw [resultado, if_neg (List.cons_ne_nil e line), atoi_block] at hsum
    have hzero : ∀ d ∈ [a, b], d.toNat - '0'.toNat = 0 → d = '0' := by
      intro d hd hd'
      have hmem : d ∈ a :: b :: c :: e :: line := List.mem_append_left (c :: e :: line) hd
      have hge := (Char.isDigit_iff_toNat.mp (hdigit d hmem)).1
      rw [← Char.toNat_inj]
      exact Nat.le_antisymm (Nat.le_of_sub_eq_zero hd') hge
    obtain rfl := hzero a List.mem_cons_self (by omega)
    obtain rfl := hzero b (List.mem_cons_of_mem _ List.mem_cons_self) (by omega)
    obtain ⟨blocks, last, heq, hpos, hle⟩ := blocks_of_resultado (e :: line) (List.cons_ne_nil e line)
      (fun d hd => hdigit d (List.mem_append_right ['0', '0', c] hd)) (by omega)
    exact ⟨c :: blocks, last, by rw [heq]; rfl, hpos, hle⟩

/-- The digits that are put behind a short name are enough. -/
theorem resultado_short {line : Str} (h : line.length ≤ 3) :
    10 ≤ resultado (line ++ ['2', '8', '2', '9', '3', '0']) := by
  match line, h with
  | [], _ => decide
  | [a], _ =>
    have hline : resultado ([a] ++ ['2', '8', '2', '9', '3', '0']) = atoi [a, '2', '8'] + 293 := rfl
    omega
  | [a, b], _ =>
    have hline : resultado ([a, b] ++ ['2', '8', '2', '9', '3', '0']) = atoi [a, b, '2'] + 829 := rfl
    omega
  | [a, b, c], _ =>
    have hline : resultado ([a, b, c] ++ ['2', '8', '2', '9', '3', '0']) = atoi [a, b, c] + 282 := rfl
    omega

/-- **`ConvertChar` yields a subdirectory** exactly when the blocks of the name have a sum of more
than one digit. -/
theorem ConvertChar_iff (lineT : Str) :
    (∃ subdir, ConvertChar lineT = some subdir ∧ Subdirectory subdir) ↔ ¬ SmallName lineT := by
  have hform : (∃ subdir, ConvertChar lineT = some subdir ∧ Subdirectory subdir) ↔
      ∃ subdir, ConvertChar lineT = some subdir := by
    constructor
    · rintro ⟨subdir, h, -⟩
      exact ⟨subdir, h⟩
    · rintro ⟨subdir, h⟩
      exact ⟨subdir, h, ConvertChar_spec h⟩
  rw [hform, exists_ConvertChar_iff, ← not_lt, not_iff_not]
  have hdigit : ∀ c ∈ lineT.flatMap charText, c.isDigit = true := by
    intro c hc
    obtain ⟨d, -, hc⟩ := List.mem_flatMap.mp hc
    exact charText_isDigit d c hc
  constructor
  · intro hsmall
    unfold digitLine at hsmall
    dsimp only at hsmall
    split at hsmall
    · next hshort => exact absurd hsmall (Nat.not_lt_of_le (resultado_short hshort))
    · next hlong =>
      have hne : lineT.flatMap charText ≠ [] := by
        intro hnil
        rw [hnil] at hlong
        exact hlong (Nat.zero_le 3)
      obtain ⟨blocks, last, heq, hpos, hle⟩ := blocks_of_resultado _ hne hdigit hsmall
      rw [heq, resultado_blocks hpos hle] at hsmall
      refine ⟨blocks, last, heq, ?_, hpos, hle, hsmall⟩
      rintro rfl
      rw [heq] at hlong
      exact hlong hle
  · rintro ⟨blocks, last, heq, hne, hpos, hle, hsum⟩
    have hlong : ¬ (lineT.flatMap charText).length ≤ 3 := by
      obtain ⟨d, blocks, rfl⟩ := List.exists_cons_of_ne_nil hne
      rw [heq]
      simp only [List.flatMap_cons, List.length_append, List.length_cons, List.length_nil]
      omega
    unfold digitLine
    dsimp only
    rwa [if_neg hlong, heq, resultado_blocks hpos hle]

/-- The sum of a name like `0001` has one digit. -/
theorem not_ConvertChar_zeros :
    ¬ ∃ subdir, ConvertChar ['0', '0', '0', '1'] = some subdir ∧ Subdirectory subdir := by
  rintro ⟨subdir, h, -⟩
  have hnone : ConvertChar ['0', '0', '0', '1'] = none := by decide
  rw [hnone] at h
  cases h

end Haarp
