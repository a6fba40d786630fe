import Haarp.Base.Parts
import Haarp.Utils.Blocks
import Mathlib.Data.List.TakeWhile

/-!
# Texts

The string functions of `utils.cpp`, on lists of characters, and the two texts in which the database
keeps a block list: `list2string` writes the columns `rg` and `pos`, `generateList` reads them back.

`generateList_list2string`: what was written is read back, in reverse order, as long as every number
fits in a `long long int`.
-/

namespace Haarp

open Base

/-- `std::string`; header texts, file contents and body pieces alike. -/
abbrev Str := List Char

/-! ## Splitting -/

/-- The loop of `stringexplode`: `piece` is the text since the last separator. -/
def stringexplodeLoop (separator : Str) : Str → Str → List Str
  | piece, [] => if 0 < piece.length then [piece] else []
  | piece, c :: str =>
    if c ∈ separator then
      if 0 < piece.length then piece :: stringexplodeLoop separator [] str
      else stringexplodeLoop separator [] str
    else stringexplodeLoop separator (piece ++ [c]) str

/-- `stringexplode`: the non-empty pieces between the characters of `separator`; the source appends
them to the vector of its caller. -/
def stringexplode (str separator : Str) : List Str := stringexplodeLoop separator [] str

/-! ## Searching -/

/-- `str.find(needle)`; `none` is `npos`. -/
def find (needle : Str) : Str → Option Nat
  | [] => if needle.isEmpty then some 0 else none
  | c :: str =>
    if needle.isPrefixOf (c :: str) then some 0 else (find needle str).map (· + 1)

/-- `str.rfind(needle)` -/
def rfind (needle : Str) : Str → Option Nat
  | [] => if needle.isEmpty then some 0 else none
  | c :: str =>
    match rfind needle str with
    | some pos => some (pos + 1)
    | none => if needle.isPrefixOf (c :: str) then some 0 else none

/-- `str.find_first_not_of(set)` -/
def findFirstNotOf (set str : Str) : Option Nat := str.findIdx? fun c => c ∉ set

/-- `toupper` of the C locale. -/
def upper (c : Char) : Char := if 'a' ≤ c ∧ c ≤ 'z' then Char.ofNat (c.toNat - 32) else c

def UpperCase (str : Str) : Str := str.map upper

/-! ## Numbers -/

/-- The greatest `long long int`. -/
def llongMax : Int := 9223372036854775807

/-- `isspace` of the C locale. -/
def isspace (c : Char) : Bool := c = ' ' ∨ (9 ≤ c.toNat ∧ c.toNat ≤ 13)

/-- `atoll`: blanks, a sign, digits; a number out of range becomes the nearest bound. -/
def atoll (str : Str) : Int :=
  let str := str.dropWhile isspace
  let digits := if str.head? = some '-' ∨ str.head? = some '+' then str.tail else str
  let n : Int := Nat.ofDigitChars 10 (digits.takeWhile Char.isDigit) 0
  if str.head? = some '-' then max (-llongMax - 1) (-n) else min llongMax n

/-- A `long long int` as `ostream` writes it. -/
def longText : Int → Str
  | .ofNat n => Nat.toDigits 10 n
  | .negSucc n => '-' :: Nat.toDigits 10 (n + 1)

/-! ## Block lists as texts -/

/-- The loop of `list2string`, with the separator `coma` that stands before the next node. -/
def list2stringLoop (coma : Str) : LintervalPositionByteDisk → Str × Str
  | [] => ([], [])
  | it :: its =>
    let (out, out1) := list2stringLoop [','] its
    (coma ++ longText it.a ++ '-' :: longText it.b ++ out, coma ++ longText it.position ++ out1)

/-- `list2string`: the texts `intervals` and `positions`. -/
def list2string (l : LintervalPositionByteDisk) : Str × Str := list2stringLoop [] l

/-- The loop of `generateList` over the pieces of `ranges` and `parts`. -/
def generateListLoop : LintervalPositionByteDisk → List (Str × Str) → Bool × LintervalPositionByteDisk
  | l, [] => (true, l)
  | l, (resul, part) :: rest =>
    match stringexplode resul ['-'] with
    | a :: b :: _ =>
      if atoll a > atoll b then (false, l)
      else generateListLoop ({ a := atoll a, b := atoll b, position := atoll part } :: l) rest
    | _ => (false, l)

/-- `generateList`: whether the two texts are well formed, and the list read from them. -/
def generateList (ranges parts : Str) : Bool × LintervalPositionByteDisk :=
  let resul := stringexplode ranges [',']
  let part := stringexplode parts [',']
  if part.length ≠ resul.length then (false, [])
  else generateListLoop [] (resul.zip part)

example : generateList (list2string [⟨5, 9, 0⟩, ⟨0, 2, 5⟩]).1 (list2string [⟨5, 9, 0⟩, ⟨0, 2, 5⟩]).2 =
    (true, [⟨0, 2, 5⟩, ⟨5, 9, 0⟩]) := by decide

/-! ## Facts about splitting -/

section Explode

variable {separator : Str}

theorem stringexplodeLoop_append {w : Str} (hw : ∀ c ∈ w, c ∉ separator) (piece str : Str) :
    stringexplodeLoop separator piece (w ++ str) = stringexplodeLoop separator (piece ++ w) str := by
  induction w generalizing piece with
  | nil => simp
  | cons c w ih =>
    rw [List.cons_append, stringexplodeLoop, if_neg (hw c List.mem_cons_self),
      ih fun d hd => hw d (List.mem_cons_of_mem c hd), List.append_assoc, List.singleton_append]

/-- A piece up to a separator. -/
theorem stringexplode_append {w str : Str} {c : Char} (hw : ∀ d ∈ w, d ∉ separator) (hne : w ≠ [])
    (hc : c ∈ separator) :
    stringexplode (w ++ c :: str) separator = w :: stringexplode str separator := by
  rw [stringexplode, stringexplodeLoop_append hw, List.nil_append, stringexplodeLoop, if_pos hc,
    if_pos (List.length_pos_iff.mpr hne)]
  rfl

/-- The last piece. -/
theorem stringexplode_of_not_mem {w : Str} (hw : ∀ d ∈ w, d ∉ separator) (hne : w ≠ []) :
    stringexplode w separator = [w] := by
  have h := stringexplodeLoop_append hw [] []
  rw [List.append_nil, List.nil_append] at h
  rw [stringexplode, h, stringexplodeLoop, if_pos (List.length_pos_iff.mpr hne)]

/-- A leading separator is dropped. -/
theorem stringexplode_cons {str : Str} {c : Char} (hc : c ∈ separator) :
    stringexplode (c :: str) separator = stringexplode str separator := by
  rw [stringexplode, stringexplodeLoop, if_pos hc]
  rfl

/-- No piece has a separator in it. -/
theorem not_mem_of_mem_stringexplode {str w : Str} (hw : w ∈ stringexplode str separator) :
    ∀ c ∈ w, c ∉ separator := by
  have hloop : ∀ piece : Str, (∀ c ∈ piece, c ∉ separator) →
      w ∈ stringexplodeLoop separator piece str → ∀ c ∈ w, c ∉ separator := by
    clear hw
    induction str with
    | nil =>
      intro piece hpiece hw
      rw [stringexplodeLoop] at hw
      split at hw
      · rw [List.mem_singleton.mp hw]
        exact hpiece
      · cases hw
    | cons c str ih =>
      intro piece hpiece hw
      have hnil : ∀ d ∈ ([] : Str), d ∉ separator := fun d hd => absurd hd List.not_mem_nil
      rw [stringexplodeLoop] at hw
      split at hw
      · split at hw
        · rcases List.mem_cons.mp hw with rfl | hw
          · exact hpiece
          · exact ih [] hnil hw
        · exact ih [] hnil hw
      · rename_i hc
        refine ih (piece ++ [c]) ?_ hw
        intro d hd
        rcases List.mem_append.mp hd with hd | hd
        · exact hpiece d hd
        · rwa [List.mem_singleton.mp hd]
  exact hloop [] (fun d hd => absurd hd List.not_mem_nil) hw

/-- A piece has only characters of the text. -/
theorem subset_of_mem_stringexplode {str w : Str} (hw : w ∈ stringexplode str separator) :
    ∀ c ∈ w, c ∈ str := by
  have hloop : ∀ piece : Str, w ∈ stringexplodeLoop separator piece str →
      ∀ c ∈ w, c ∈ piece ++ str := by
    clear hw
    induction str with
    | nil =>
      intro piece hw c hc
      rw [stringexplodeLoop] at hw
      split at hw
      · rw [List.mem_singleton.mp hw] at hc
        exact List.mem_append_left [] hc
      · cases hw
    | cons d str ih =>
      intro piece hw c hc
      have hbehind : w ∈ stringexplodeLoop separator [] str → c ∈ piece ++ d :: str :=
        fun h => List.mem_append_right piece (List.mem_cons_of_mem d (ih [] h c hc))
      rw [stringexplodeLoop] at hw
      split at hw
      · split at hw
        · rcases List.mem_cons.mp hw with rfl | hw
          · exact List.mem_append_left _ hc
          · exact hbehind hw
        · exact hbehind hw
      · have h := ih (piece ++ [d]) hw c hc
        rwa [List.append_assoc, List.singleton_append] at h
  exact hloop [] hw

/-- Pieces with a separator before each of them. -/
theorem stringexplode_flatMap {c : Char} {pieces : List Str} (h : ∀ w ∈ pieces, w ≠ [] ∧ c ∉ w) :
    stringexplode (pieces.flatMap (c :: ·)) [c] = pieces := by
  induction pieces with
  | nil => rfl
  | cons w pieces ih =>
    obtain ⟨hne, hc⟩ := h w List.mem_cons_self
    have hw : ∀ d ∈ w, d ∉ [c] := fun d hd hmem => hc (List.mem_singleton.mp hmem ▸ hd)
    have hrest := ih fun v hv => h v (List.mem_cons_of_mem w hv)
    rw [List.flatMap_cons, List.cons_append, stringexplode_cons List.mem_cons_self]
    cases pieces with
    | nil => rw [List.flatMap_nil, List.append_nil, stringexplode_of_not_mem hw hne]
    | cons v pieces =>
      rw [List.flatMap_cons, List.cons_append, stringexplode_cons List.mem_cons_self] at hrest
      rw [List.flatMap_cons, List.cons_append, stringexplode_append hw hne List.mem_cons_self, hrest]

/-- **The tokenizer** gives the parts between the separators. -/
theorem stringexplode_eq_parts (str separator : Str) :
    stringexplode str separator = parts (fun c => c ∈ separator) str := by
  -- the text since the last separator is one part, if there is any
  have hpiece : ∀ piece : Str, (∀ c ∈ piece, c ∉ separator) →
      parts (fun c => decide (c ∈ separator)) piece = if 0 < piece.length then [piece] else [] := by
    intro piece h
    cases piece with
    | nil => exact parts_nil
    | cons d piece =>
      exact parts_of_not_sep (List.cons_ne_nil d piece) fun c hc => decide_eq_false (h c hc)
  have hloop : ∀ piece : Str, (∀ c ∈ piece, c ∉ separator) →
      stringexplodeLoop separator piece str = parts (fun c => c ∈ separator) (piece ++ str) := by
    induction str with
    | nil =>
      intro piece h
      rw [stringexplodeLoop, List.append_nil, hpiece piece h]
    | cons c str ih =>
      intro piece h
      have hnil := ih [] fun d hd => absurd hd List.not_mem_nil
      rw [stringexplodeLoop, hnil, List.nil_append]
      by_cases hc : c ∈ separator
      · have hsplit : parts (fun c => decide (c ∈ separator)) (piece ++ c :: str) =
            parts (fun c => decide (c ∈ separator)) piece ++ parts (fun c => decide (c ∈ separator)) str := by
          refine parts_append ?_ piece str
          exact decide_eq_true hc
        rw [if_pos hc, hsplit, hpiece piece h]
        split <;> rfl
      · have hpiece' : ∀ d ∈ piece ++ [c], d ∉ separator := by
          intro d hd
          rcases List.mem_append.mp hd with hd | hd
          · exact h d hd
          · rwa [List.mem_singleton.mp hd]
        rw [if_neg hc, ih (piece ++ [c]) hpiece', List.append_assoc, List.singleton_append]
  exact hloop [] fun c hc => absurd hc List.not_mem_nil

/-- A separator anywhere splits the pieces. -/
theorem stringexplode_split {c : Char} (hc : c ∈ separator) (u v : Str) :
    stringexplode (u ++ c :: v) separator = stringexplode u separator ++ stringexplode v separator := by
  have hsep : decide (c ∈ separator) = true := decide_eq_true hc
  rw [stringexplode_eq_parts, stringexplode_eq_parts, stringexplode_eq_parts]
  exact @parts_append Char (fun c => decide (c ∈ separator)) c hsep u v

/-- Separators alone make no piece. -/
theorem stringexplode_eq_nil_iff {str : Str} : stringexplode str separator = [] ↔ ∀ c ∈ str, c ∈ separator := by
  rw [stringexplode_eq_parts, parts_eq_nil_iff]
  simp only [decide_eq_true_eq]

end Explode

/-! ## Facts about searching -/

/-- What holds of each character of a text is found out one by one. -/
theorem forall_mem_of_all {text : Str} {P : Char → Prop} [DecidablePred P]
    (h : (text.all fun c => decide (P c)) = true) : ∀ c ∈ text, P c :=
  fun c hc => of_decide_eq_true (List.all_eq_true.mp h c hc)

/-- The first place of a character splits a text in one way. -/
theorem append_cons_inj {c : Char} {a b x y : Str} (ha : c ∉ a) (hb : c ∉ b)
    (h : a ++ c :: x = b ++ c :: y) : a = b ∧ x = y := by
  induction a generalizing b with
  | nil =>
    cases b with
    | nil => exact ⟨rfl, (List.cons.inj h).2⟩
    | cons d b => exact absurd ((List.cons.inj h).1 ▸ List.mem_cons_self) hb
  | cons d a ih =>
    cases b with
    | nil => exact absurd ((List.cons.inj h).1 ▸ List.mem_cons_self) ha
    | cons e b =>
      have hcons := List.cons.inj h
      obtain ⟨rfl, rfl⟩ := ih (fun hc => ha (List.mem_cons_of_mem d hc))
        (fun hc => hb (List.mem_cons_of_mem e hc)) hcons.2
      exact ⟨by rw [hcons.1], rfl⟩

theorem find_eq_zero {needle str : Str} : find needle str = some 0 ↔ needle <+: str := by
  cases str with
  | nil => simp [find]
  | cons c str =>
    rw [find, ← List.isPrefixOf_iff_prefix]
    split <;> simp [*]

/-- Nothing is found in a text that does not contain it, and then what is found behind it is found
there, when the text ends in a character that the needle does not have. -/
theorem find_append {needle str : Str} (hnot : ¬ needle <:+: str)
    (hlast : ∀ c, str.getLast? = some c → c ∉ needle) (rest : Str) :
    find needle (str ++ rest) = (find needle rest).map (· + str.length) := by
  induction str with
  | nil => simp
  | cons c str ih =>
    have hhead : ¬ needle <+: c :: (str ++ rest) := by
      intro hleads
      rcases List.prefix_or_prefix_of_prefix hleads (List.prefix_append (c :: str) rest) with h | h
      · exact hnot h.isInfix
      · have hmem : (c :: str).getLast (List.cons_ne_nil c str) ∈ needle :=
          h.subset (List.getLast_mem _)
        exact hlast _ (List.getLast?_eq_some_getLast _) hmem
    have htail : find needle (str ++ rest) = (find needle rest).map (· + str.length) := by
      refine ih (fun h => hnot (List.infix_cons h)) ?_
      intro d hd
      refine hlast d ?_
      cases str with
      | nil => cases hd
      | cons e str => rw [List.getLast?_cons_cons, hd]
    rw [List.cons_append, find, if_neg (fun h => hhead (List.isPrefixOf_iff_prefix.mp h)), htail]
    cases find needle rest <;> simp [Nat.add_assoc]

/-- What a text does not contain is not found in it. -/
theorem find_eq_none {needle str : Str} (hnot : ¬ needle <:+: str) : find needle str = none := by
  induction str with
  | nil =>
    have hne : needle ≠ [] := fun h => hnot (h ▸ List.nil_infix)
    simp [find, hne]
  | cons c str ih =>
    have hhead : ¬ needle.isPrefixOf (c :: str) = true :=
      fun h => hnot (List.isPrefixOf_iff_prefix.mp h).isInfix
    rw [find, if_neg hhead, ih fun h => hnot (List.infix_cons h)]
    rfl

theorem find_isSome_iff {needle str : Str} : (find needle str).isSome = true ↔ needle <:+: str := by
  constructor
  · intro h
    by_contra hnot
    rw [find_eq_none hnot] at h
    cases h
  · rintro ⟨before, after, rfl⟩
    induction before with
    | nil => simp [find_eq_zero.mpr (List.prefix_append needle after)]
    | cons c before ih =>
      rw [List.cons_append, List.cons_append, find]
      split
      · rfl
      · rwa [Option.isSome_map]

/-- The text around the first place where a character is found. -/
theorem find_singleton {c : Char} {str : Str} {position : Nat} (h : find [c] str = some position) :
    ∃ before after, str = before ++ c :: after ∧ before.length = position ∧ c ∉ before := by
  induction str generalizing position with
  | nil => cases h
  | cons d str ih =>
    rw [find] at h
    split at h
    · rename_i hd
      obtain ⟨rfl, -⟩ := List.cons_prefix_cons.mp (List.isPrefixOf_iff_prefix.mp hd)
      cases h
      exact ⟨[], str, rfl, rfl, List.not_mem_nil⟩
    · rename_i hd
      obtain ⟨k, hk, rfl⟩ := Option.map_eq_some_iff.mp h
      obtain ⟨before, after, rfl, rfl, hmem⟩ := ih hk
      have hne : c ≠ d := by
        rintro rfl
        exact hd (List.isPrefixOf_iff_prefix.mpr (List.cons_prefix_cons.mpr ⟨rfl, List.nil_prefix⟩))
      refine ⟨d :: before, after, rfl, rfl, ?_⟩
      rw [List.mem_cons, not_or]
      exact ⟨hne, hmem⟩

/-- A character that is not found is not there. -/
theorem not_mem_of_find {c : Char} {str : Str} (h : find [c] str = none) : c ∉ str := by
  induction str with
  | nil => exact List.not_mem_nil
  | cons d str ih =>
    rw [find] at h
    split at h
    · cases h
    · rename_i hd
      have hne : c ≠ d := by
        rintro rfl
        exact hd (List.isPrefixOf_iff_prefix.mpr (List.cons_prefix_cons.mpr ⟨rfl, List.nil_prefix⟩))
      rw [List.mem_cons, not_or]
      exact ⟨hne, ih (Option.map_eq_none_iff.mp h)⟩

/-- The last place of a character. -/
theorem rfind_append {c : Char} {after : Str} (h : c ∉ after) (before : Str) :
    rfind [c] (before ++ c :: after) = some before.length := by
  induction before with
  | nil =>
    have hnone : rfind [c] after = none := by
      induction after with
      | nil => rfl
      | cons d after ih =>
        rw [List.mem_cons, not_or] at h
        have hd : ¬ [c].isPrefixOf (d :: after) = true := by
          intro hp
          exact h.1 (List.cons_prefix_cons.mp (List.isPrefixOf_iff_prefix.mp hp)).1
        rw [rfind, ih h.2]
        exact if_neg hd
    rw [List.nil_append, rfind, hnone]
    simp
  | cons d before ih =>
    rw [List.cons_append, rfind, ih]
    rfl

/-- A character that is there is found, and the text behind its last place does not have it. -/
theorem rfind_cases (c : Char) (str : Str) :
    (c ∉ str ∧ rfind [c] str = none) ∨
      ∃ before after, str = before ++ c :: after ∧ c ∉ after ∧ rfind [c] str = some before.length := by
  induction str with
  | nil => exact .inl ⟨List.not_mem_nil, rfl⟩
  | cons d str ih =>
    rcases ih with ⟨hno, hnone⟩ | ⟨before, after, rfl, hno, -⟩
    · by_cases hd : c = d
      · subst hd
        exact .inr ⟨[], str, rfl, hno, rfind_append hno []⟩
      · have hp : ¬ [c].isPrefixOf (d :: str) = true := fun hp =>
          hd (List.cons_prefix_cons.mp (List.isPrefixOf_iff_prefix.mp hp)).1
        refine .inl ⟨by simp [hd, hno], ?_⟩
        rw [rfind, hnone]
        exact if_neg hp
    · exact .inr ⟨d :: before, after, rfl, hno, rfind_append hno (d :: before)⟩

/-- What follows the characters of `set` in front. -/
theorem findFirstNotOf_drop (set str : Str) :
    (findFirstNotOf set str).elim [] str.drop = str.dropWhile (· ∈ set) ∧
      ((findFirstNotOf set str).isSome ↔ str.dropWhile (· ∈ set) ≠ []) := by
  induction str with
  | nil => simp [findFirstNotOf]
  | cons c str ih =>
    rw [findFirstNotOf] at ih ⊢
    rw [List.findIdx?_cons]
    by_cases hc : c ∈ set
    · rw [if_neg (by simpa using hc), List.dropWhile_cons_of_pos (by simpa using hc), Option.isSome_map]
      refine ⟨?_, ih.2⟩
      rw [← ih.1]
      cases str.findIdx? _ <;> rfl
    · rw [if_pos (by simpa using hc), List.dropWhile_cons_of_neg (by simpa using hc)]
      exact ⟨rfl, by simp⟩

theorem findFirstNotOf_cons {set str : Str} {c : Char} (h : c ∉ set) :
    findFirstNotOf set (c :: str) = some 0 := by
  rw [findFirstNotOf, List.findIdx?_cons, if_pos (decide_eq_true h)]

theorem head?_of_findFirstNotOf {set str : Str} {position : Nat}
    (h : findFirstNotOf set str = some position) :
    ∃ c, (str.drop position).head? = some c ∧ c ∉ set := by
  obtain ⟨hlt, hc, -⟩ := List.findIdx?_eq_some_iff_getElem.mp h
  exact ⟨str[position], by rw [List.head?_drop, List.getElem?_eq_getElem hlt], of_decide_eq_true hc⟩

/-! ## Facts about numbers -/

theorem isspace_of_isDigit {c : Char} (h : c.isDigit = true) : isspace c = false := by
  simp only [Char.isDigit, Bool.and_eq_true, decide_eq_true_eq, ge_iff_le] at h
  have hge : 48 ≤ c.toNat := UInt32.le_iff_toNat_le.mp h.1
  have hne : c ≠ ' ' := by
    rintro rfl
    exact absurd hge (by decide)
  simp only [isspace, hne, false_or, decide_eq_false_iff_not]
  omega

theorem takeWhile_isDigit {s : Str} (hs : ∀ c ∈ s, c.isDigit = true) :
    s.takeWhile Char.isDigit = s :=
  List.takeWhile_eq_self_iff.mpr hs

/-- `atoll` of a text of digits. -/
theorem atoll_digits {s : Str} (hs : ∀ c ∈ s, c.isDigit = true) (hne : s ≠ []) :
    atoll s = min llongMax (Nat.ofDigitChars 10 s 0) := by
  obtain ⟨c, w, rfl⟩ := List.exists_cons_of_ne_nil hne
  have hc := hs c List.mem_cons_self
  have hminus : c ≠ '-' := fun h => absurd (h ▸ hc) (by decide)
  have hplus : c ≠ '+' := fun h => absurd (h ▸ hc) (by decide)
  have hdrop : (c :: w).dropWhile isspace = c :: w := by
    rw [List.dropWhile_cons_of_neg (by simp [isspace_of_isDigit hc])]
  simp only [atoll, hdrop, List.head?_cons, Option.some.injEq, hminus, hplus, or_self, if_false]
  rw [takeWhile_isDigit hs]

theorem longText_isDigit {n : Int} (h₀ : 0 ≤ n) : ∀ c ∈ longText n, c.isDigit = true := by
  obtain ⟨k, rfl⟩ := Int.eq_ofNat_of_zero_le h₀
  exact fun c hc => Nat.isDigit_of_mem_toDigits (by decide) (by decide) hc

theorem longText_ne_nil (n : Int) : longText n ≠ [] := by
  cases n with
  | ofNat n => exact Nat.toDigits_ne_nil
  | negSucc n => exact List.cons_ne_nil _ _

theorem atoll_longText {n : Int} (h₀ : 0 ≤ n) (hmax : n ≤ llongMax) : atoll (longText n) = n := by
  rw [atoll_digits (longText_isDigit h₀) (longText_ne_nil n)]
  obtain ⟨k, rfl⟩ := Int.eq_ofNat_of_zero_le h₀
  have hk : Nat.ofDigitChars 10 (longText k) 0 = k := Nat.ofDigitChars_ten_toDigits
  rw [hk]
  exact min_eq_right hmax

/-! ## The round trip -/

/-- Every number of the list is a `long long int` that is not negative, and `a ≤ b`. -/
structure InRange (l : LintervalPositionByteDisk) : Prop where
  a : ∀ x ∈ l, 0 ≤ x.a
  b : ∀ x ∈ l, x.a ≤ x.b ∧ x.b ≤ llongMax
  position : ∀ x ∈ l, 0 ≤ x.position ∧ x.position ≤ llongMax

theorem InRange.head {x : IntervalPositionByteDisk} {l : LintervalPositionByteDisk}
    (h : InRange (x :: l)) :
    0 ≤ x.a ∧ x.a ≤ x.b ∧ x.b ≤ llongMax ∧ 0 ≤ x.position ∧ x.position ≤ llongMax := by
  have hb := h.b x List.mem_cons_self
  have hp := h.position x List.mem_cons_self
  exact ⟨h.a x List.mem_cons_self, hb.1, hb.2, hp.1, hp.2⟩

theorem InRange.tail {x : IntervalPositionByteDisk} {l : LintervalPositionByteDisk}
    (h : InRange (x :: l)) : InRange l :=
  ⟨fun y hy => h.a y (List.mem_cons_of_mem x hy), fun y hy => h.b y (List.mem_cons_of_mem x hy),
    fun y hy => h.position y (List.mem_cons_of_mem x hy)⟩

/-- The text of one block in `rg`. -/
def rangeText (x : IntervalPositionByteDisk) : Str := longText x.a ++ '-' :: longText x.b

theorem not_mem_longText {n : Int} (h₀ : 0 ≤ n) {c : Char} (hc : c.isDigit = false) :
    ∀ d ∈ longText n, d ∉ [c] := by
  intro d hd hmem
  have hdigit := longText_isDigit h₀ d hd
  rw [List.mem_singleton.mp hmem, hc] at hdigit
  exact absurd hdigit (by decide)

theorem not_mem_rangeText {x : IntervalPositionByteDisk} (ha : 0 ≤ x.a) (hb : 0 ≤ x.b) :
    ∀ d ∈ rangeText x, d ∉ [','] := by
  intro d hd
  rcases List.mem_append.mp hd with hd | hd
  · exact not_mem_longText ha (by decide) d hd
  · rcases List.mem_cons.mp hd with rfl | hd
    · decide
    · exact not_mem_longText hb (by decide) d hd

theorem rangeText_ne_nil (x : IntervalPositionByteDisk) : rangeText x ≠ [] := by
  simp [rangeText]

/-- What is written behind commas. -/
theorem list2stringLoop_eq (l : LintervalPositionByteDisk) :
    (list2stringLoop [','] l).1 = (l.map rangeText).flatMap (',' :: ·) ∧
      (list2stringLoop [','] l).2 = (l.map fun x => longText x.position).flatMap (',' :: ·) := by
  induction l with
  | nil => exact ⟨rfl, rfl⟩
  | cons x l ih =>
    rw [List.map_cons, List.map_cons, List.flatMap_cons, List.flatMap_cons, ← ih.1, ← ih.2]
    simp [list2stringLoop, rangeText]

/-- What is written behind a comma, read piece by piece. -/
theorem stringexplode_list2stringLoop {l : LintervalPositionByteDisk} (hl : InRange l) :
    stringexplode (list2stringLoop [','] l).1 [','] = l.map rangeText ∧
      stringexplode (list2stringLoop [','] l).2 [','] = l.map fun x => longText x.position := by
  obtain ⟨hranges, hpositions⟩ := list2stringLoop_eq l
  rw [hranges, hpositions]
  refine ⟨stringexplode_flatMap fun w hw => ?_, stringexplode_flatMap fun w hw => ?_⟩
  · obtain ⟨x, hx, rfl⟩ := List.mem_map.mp hw
    have hx' := not_mem_rangeText (hl.a x hx) ((hl.a x hx).trans (hl.b x hx).1)
    exact ⟨rangeText_ne_nil x, fun hmem => hx' ',' hmem List.mem_cons_self⟩
  · obtain ⟨x, hx, rfl⟩ := List.mem_map.mp hw
    have hx' := not_mem_longText (hl.position x hx).1 (c := ',') (by decide)
    exact ⟨longText_ne_nil _, fun hmem => hx' ',' hmem List.mem_cons_self⟩

theorem stringexplode_rangeText {x : IntervalPositionByteDisk} (ha : 0 ≤ x.a) (hb : 0 ≤ x.b) :
    stringexplode (rangeText x) ['-'] = [longText x.a, longText x.b] := by
  rw [rangeText, stringexplode_append (not_mem_longText ha (by decide)) (longText_ne_nil _)
    (by simp), stringexplode_of_not_mem (not_mem_longText hb (by decide)) (longText_ne_nil _)]

theorem generateListLoop_texts {l : LintervalPositionByteDisk} (hl : InRange l)
    (acc : LintervalPositionByteDisk) :
    generateListLoop acc ((l.map rangeText).zip (l.map fun x => longText x.position)) =
      (true, l.reverse ++ acc) := by
  induction l generalizing acc with
  | nil => rfl
  | cons x l ih =>
    obtain ⟨ha, hab, hb, hp, hpm⟩ := hl.head
    have hx := stringexplode_rangeText ha (ha.trans hab)
    simp only [List.map_cons, List.zip_cons_cons, generateListLoop, hx]
    rw [atoll_longText ha (hab.trans hb), atoll_longText (ha.trans hab) hb, atoll_longText hp hpm,
      if_neg (not_lt.mpr hab), ih hl.tail]
    simp

/-- The first comma is not written. -/
theorem stringexplode_list2string {l : LintervalPositionByteDisk} (hl : InRange l) :
    stringexplode (list2string l).1 [','] = l.map rangeText ∧
      stringexplode (list2string l).2 [','] = l.map fun x => longText x.position := by
  have h := stringexplode_list2stringLoop hl
  cases l with
  | nil => exact h
  | cons x l =>
    have h₁ : (list2stringLoop [','] (x :: l)).1 = ',' :: (list2string (x :: l)).1 := by
      simp [list2string, list2stringLoop]
    have h₂ : (list2stringLoop [','] (x :: l)).2 = ',' :: (list2string (x :: l)).2 := by
      simp [list2string, list2stringLoop]
    rw [h₁, h₂, stringexplode_cons (by simp), stringexplode_cons (by simp)] at h
    exact h

/-- **The round trip of a block list**: it is read back in reverse order. -/
theorem generateList_list2string {l : LintervalPositionByteDisk} (hl : InRange l) :
    generateList (list2string l).1 (list2string l).2 = (true, l.reverse) := by
  obtain ⟨h₁, h₂⟩ := stringexplode_list2string hl
  simp only [generateList, h₁, h₂, List.length_map, ne_eq, not_true_eq_false, if_false]
  rw [generateListLoop_texts hl, List.append_nil]

end Haarp
