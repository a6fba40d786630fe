import Haarp.Base.Regex
import Haarp.Utils.Strings

/-!
# Searching and replacing

`regex_match` and `SearchReplace` of `utils.cpp`. The replacements go from left to right, and no one
looks into what another one has put in. `searchReplace_spec` says so as a derivation (`Replaced`),
which gives the length of the result (`Replaced.length`) and bounds for the number of replacements
from below.
-/

namespace Haarp

open Base

/-! ## Regular expressions -/

/-- What `c_str` gives to C: the text up to the first NUL. -/
def cStr (str : Str) : Str := str.takeWhile (· ≠ Char.ofNat 0)

/-- `$` with `REG_NEWLINE`: a line ends here. -/
def lineEnd (behind : Str) : Bool := behind.head?.all (· = '\n')

/-- `regex_match`, for an expression that ends with `$` or does not; the text is empty when there is
no match. -/
def regexMatch (er : Regex Char) (atLineEnd : Bool) (line : Str) : Str :=
  (Regex.search (fun behind => !atLineEnd || lineEnd behind) er (cStr line)).getD []

/-- A character of `[0-9]`. -/
def digit : Regex Char := .char Char.isDigit

/-- `[...]` -/
def oneOf (set : List Char) : Regex Char := .char (· ∈ set)

/-- `\w` -/
def wordChar : Regex Char := .char fun c => c.isAlphanum ∨ c = '_'

/-- The texts behind newlines. -/
def behindNewlines : Str → List Str
  | [] => []
  | c :: text => if c = '\n' then text :: behindNewlines text else behindNewlines text

/-- `regex_match` for an expression that begins with `^`: with `REG_NEWLINE`, a match begins where a
line does. -/
def regexMatchLine (er : Regex Char) (atLineEnd : Bool) (line : Str) : Str :=
  ((cStr line :: behindNewlines (cStr line)).findSome? fun text =>
    (Regex.front (fun behind => !atLineEnd || lineEnd behind) er text).map fun n => text.take n).getD []

theorem cStr_eq_self {str : Str} (h : Char.ofNat 0 ∉ str) : cStr str = str :=
  List.takeWhile_eq_self_iff.mpr fun _ hc => decide_eq_true fun heq => h (heq ▸ hc)

/-- A match that is not empty is a part of the text, and the expression denotes it. -/
theorem regexMatch_sound {er : Regex Char} {atLineEnd : Bool} {line : Str}
    (h : regexMatch er atLineEnd line ≠ []) :
    regexMatch er atLineEnd line ∈ er.language ∧ regexMatch er atLineEnd line <:+: line := by
  unfold regexMatch at h ⊢
  cases hfound : Regex.search (fun behind => !atLineEnd || lineEnd behind) er (cStr line) with
  | none => simp [hfound] at h
  | some w =>
    obtain ⟨hmem, u, v, heq, -⟩ := Regex.search_sound hfound
    refine ⟨hmem, List.IsInfix.trans ⟨u, v, heq.symm⟩ ?_⟩
    exact (List.takeWhile_prefix _).isInfix

theorem suffix_of_mem_behindNewlines {text behind : Str} (h : behind ∈ behindNewlines text) :
    behind <:+ text := by
  induction text with
  | nil => cases h
  | cons c text ih =>
    rw [behindNewlines] at h
    split at h
    · rcases List.mem_cons.mp h with rfl | h
      · exact List.suffix_cons c behind
      · exact (ih h).trans (List.suffix_cons c text)
    · exact (ih h).trans (List.suffix_cons c text)

theorem regexMatchLine_sound {er : Regex Char} {atLineEnd : Bool} {line : Str}
    (h : regexMatchLine er atLineEnd line ≠ []) :
    regexMatchLine er atLineEnd line ∈ er.language ∧ regexMatchLine er atLineEnd line <:+: line := by
  unfold regexMatchLine at h ⊢
  cases hfound : (cStr line :: behindNewlines (cStr line)).findSome? fun text =>
      (Regex.front (fun behind => !atLineEnd || lineEnd behind) er text).map fun n => text.take n with
  | none => simp [hfound] at h
  | some w =>
    obtain ⟨text, htext, hw⟩ := List.exists_of_findSome?_eq_some hfound
    obtain ⟨n, hn, rfl⟩ := Option.map_eq_some_iff.mp hw
    have hsuffix : text <:+ cStr line := by
      rcases List.mem_cons.mp htext with rfl | htext
      · exact List.suffix_rfl
      · exact suffix_of_mem_behindNewlines htext
    refine ⟨(Regex.front_sound hn).1, ?_⟩
    have hinside := (List.take_prefix n text).isInfix.trans hsuffix.isInfix
    exact hinside.trans (List.takeWhile_prefix _).isInfix

/-- What stands at the front of the text is found. -/
theorem regexMatchLine_ne_nil {er : Regex Char} {atLineEnd : Bool} {line u v : Str}
    (hnull : er.nullable = false) (hline : cStr line = u ++ v) (hu : u ∈ er.language)
    (hv : (!atLineEnd || lineEnd v) = true) : regexMatchLine er atLineEnd line ≠ [] := by
  have hfront : (Regex.front (fun behind => !atLineEnd || lineEnd behind) er (cStr line)).isSome = true :=
    Regex.front_isSome_iff.mpr ⟨u, v, hline, hu, hv⟩
  obtain ⟨n, hn⟩ := Option.isSome_iff_exists.mp hfront
  have hmem := (Regex.front_sound hn).1
  rw [regexMatchLine, List.findSome?_cons, hn, Option.map_some]
  intro hnil
  rw [Option.getD_some] at hnil
  rw [hnil, ← Regex.nullable_iff, hnull] at hmem
  cases hmem

/-- `regex_match` of an expression without the empty word: what is somewhere in the text is found. -/
theorem regexMatch_ne_nil_iff {er : Regex Char} {atLineEnd : Bool} {line : Str}
    (hnull : er.nullable = false) :
    regexMatch er atLineEnd line ≠ [] ↔ ∃ u w v, cStr line = u ++ (w ++ v) ∧ w ∈ er.language ∧
      (!atLineEnd || lineEnd v) = true := by
  have hsome : (Regex.search (fun behind => !atLineEnd || lineEnd behind) er (cStr line)).isSome = true ↔
      ∃ u w v, cStr line = u ++ (w ++ v) ∧ w ∈ er.language ∧ (!atLineEnd || lineEnd v) = true :=
    Regex.search_isSome_iff
  rw [← hsome, regexMatch]
  cases hfound : Regex.search (fun behind => !atLineEnd || lineEnd behind) er (cStr line) with
  | none => simp
  | some w =>
    refine iff_of_true (fun hnil => ?_) rfl
    have hmem := (Regex.search_sound hfound).1
    rw [Option.getD_some] at hnil
    rw [hnil, ← Regex.nullable_iff, hnull] at hmem
    cases hmem

/-- Where there is one match only, it is the one that is found. -/
theorem regexMatch_eq_of_unique {er : Regex Char} {atLineEnd : Bool} {line w : Str}
    (hnull : er.nullable = false)
    (hfound : ∃ u v, cStr line = u ++ (w ++ v) ∧ w ∈ er.language ∧ (!atLineEnd || lineEnd v) = true)
    (hunique : ∀ u w' v, cStr line = u ++ (w' ++ v) → w' ∈ er.language →
      (!atLineEnd || lineEnd v) = true → w' = w) : regexMatch er atLineEnd line = w := by
  obtain ⟨u, v, hline, hw, hstop⟩ := hfound
  have hne := (regexMatch_ne_nil_iff hnull).mpr ⟨u, w, v, hline, hw, hstop⟩
  rw [regexMatch] at hne ⊢
  cases hsearch : Regex.search (fun behind => !atLineEnd || lineEnd behind) er (cStr line) with
  | none =>
    rw [hsearch] at hne
    exact absurd rfl hne
  | some w' =>
    obtain ⟨hw', u', v', hline', hstop'⟩ := Regex.search_sound hsearch
    rw [List.append_assoc] at hline'
    rw [Option.getD_some]
    exact hunique u' w' v' hline' hw' hstop'

/-! ## Replacing -/

/-- The loop of `SearchReplace`, on the text behind the last replacement. -/
def searchReplaceLoop (search replace : Str) : Nat → Str → Nat × Str
  | 0, source => (0, source)
  | fuel + 1, source =>
    match find search source with
    | none => (0, source)
    | some position =>
      let (numberReplace, rest) :=
        searchReplaceLoop search replace fuel (source.drop (position + search.length))
      (numberReplace + 1, source.take position ++ replace ++ rest)

/-- `SearchReplace`: the number of replacements, and the new `source`. The text that is searched for
is not empty; for an empty one the loop of the source has no end. -/
def searchReplace (source search replace : Str) : Int × Str :=
  if replace.isEmpty then (-1, source)
  else
    let (numberReplace, source) := searchReplaceLoop search replace (source.length + 1) source
    (numberReplace, source)

/-- `n` replacements turn the first text into the second one. -/
inductive Replaced (search replace : Str) : Nat → Str → Str → Prop
  | done {source : Str} (no : ¬ search <:+: source) : Replaced search replace 0 source source
  | next {n : Nat} {before source out : Str}
      (first : find search (before ++ search ++ source) = some before.length)
      (rest : Replaced search replace n source out) :
      Replaced search replace (n + 1) (before ++ search ++ source) (before ++ replace ++ out)

theorem find_eq_some {needle str : Str} {position : Nat} (h : find needle str = some position) :
    ∃ before after, str = before ++ needle ++ after ∧ before.length = position := by
  induction str generalizing position with
  | nil =>
    obtain ⟨hnil, rfl⟩ : needle = [] ∧ 0 = position := by simpa [find] using h
    exact ⟨[], [], by rw [hnil]; rfl, rfl⟩
  | cons c str ih =>
    rw [find] at h
    split at h
    · next hleads =>
      cases h
      obtain ⟨after, heq⟩ := List.isPrefixOf_iff_prefix.mp hleads
      exact ⟨[], after, heq.symm, rfl⟩
    · obtain ⟨k, hk, rfl⟩ := Option.map_eq_some_iff.mp h
      obtain ⟨before, after, rfl, rfl⟩ := ih hk
      exact ⟨c :: before, after, rfl, rfl⟩

theorem find_eq_none_iff {needle str : Str} : find needle str = none ↔ ¬ needle <:+: str := by
  rw [← find_isSome_iff, Option.not_isSome_iff_eq_none]

/-- What is found is not behind any other place. -/
theorem find_le {needle before after : Str} {position : Nat}
    (h : find needle (before ++ needle ++ after) = some position) : position ≤ before.length := by
  induction before generalizing position with
  | nil =>
    have hzero : find needle ([] ++ needle ++ after) = some 0 :=
      find_eq_zero.mpr (List.prefix_append needle after)
    rw [hzero] at h
    cases h
    exact le_rfl
  | cons c before ih =>
    rw [List.cons_append, List.cons_append, find] at h
    split at h
    · cases h
      exact Nat.zero_le _
    · obtain ⟨k, hk, rfl⟩ := Option.map_eq_some_iff.mp h
      exact Nat.succ_le_succ (ih hk)

variable {search replace : Str}

theorem searchReplaceLoop_spec (hsearch : search ≠ []) (fuel : Nat) {source : Str}
    (hfuel : source.length < fuel) :
    Replaced search replace (searchReplaceLoop search replace fuel source).1 source
      (searchReplaceLoop search replace fuel source).2 := by
  induction fuel generalizing source with
  | zero => omega
  | succ fuel ih =>
    rw [searchReplaceLoop]
    split
    · next hnone =>
      refine .done fun h => ?_
      rw [← find_isSome_iff, hnone] at h
      cases h
    · next position hfound =>
      obtain ⟨before, after, rfl, rfl⟩ := find_eq_some hfound
      have hpos := List.length_pos_iff.mpr hsearch
      have hdrop : (before ++ search ++ after).drop (before.length + search.length) = after := by
        rw [← List.length_append, List.drop_left]
      have htake : (before ++ search ++ after).take before.length = before := by
        rw [List.append_assoc, List.take_left]
      simp only [hdrop, htake]
      refine .next hfound (ih ?_)
      simp only [List.length_append] at hfuel
      omega

/-- **The rule of `SearchReplace`.** -/
theorem searchReplace_spec (hsearch : search ≠ []) (hreplace : replace ≠ []) (source : Str) :
    ∃ (n : Nat) (out : Str), searchReplace source search replace = ((n : Int), out) ∧
      Replaced search replace n source out := by
  refine ⟨_, _, ?_, searchReplaceLoop_spec hsearch _ (Nat.lt_succ_self source.length)⟩
  rw [searchReplace, if_neg (by simpa using hreplace)]

namespace Replaced

variable {n m : Nat} {source out out' : Str}

/-- The length of the result. -/
theorem length (h : Replaced search replace n source out) :
    out.length + n * search.length = source.length + n * replace.length := by
  induction h with
  | done no => simp
  | next first rest ih =>
    simp only [List.length_append, Nat.succ_mul]
    omega

theorem length_le (h : Replaced search replace n source out) (hle : search.length ≤ replace.length) :
    source.length ≤ out.length := by
  have hn : n * search.length ≤ n * replace.length := Nat.mul_le_mul_left n hle
  have := h.length
  omega

theorem pos_of_infix (h : Replaced search replace n source out) (hin : search <:+: source) :
    0 < n := by
  cases h with
  | done no => exact absurd hin no
  | next first rest => exact Nat.succ_pos _

/-- There are as many replacements in a text as in what follows a part of it. -/
theorem le_append {replace' : Str} (h : Replaced search replace n source out) (more : Str)
    (h' : Replaced search replace' m (more ++ source) out') : n ≤ m := by
  induction h generalizing m more out' with
  | done no => exact Nat.zero_le m
  | @next n before source out first rest ih =>
    have hassoc : more ++ (before ++ search ++ source) = (more ++ before) ++ search ++ source := by
      simp only [List.append_assoc]
    rw [hassoc] at h'
    generalize htext : (more ++ before) ++ search ++ source = text at h'
    cases h' with
    | done no => exact absurd ⟨more ++ before, source, htext⟩ no
    | @next m before' source' _ first' rest' =>
      have hle : before'.length ≤ (more ++ before).length := find_le (htext ▸ first')
      have hlen := congrArg List.length htext
      simp only [List.length_append] at hlen hle
      obtain ⟨between, rfl⟩ : source <:+ source' :=
        List.suffix_of_suffix_length_le ⟨_, htext⟩ ⟨_, rfl⟩ (by omega)
      exact Nat.succ_le_succ (ih between rest')

/-- What one pass puts in, the next one finds. -/
theorem le_of_replaced {replace' : Str} (hsearch : replace ≠ [])
    (h : Replaced search replace n source out) (h' : Replaced replace replace' m out out') :
    n ≤ m := by
  induction h generalizing m out' with
  | done no => exact Nat.zero_le m
  | @next n before source out first rest ih =>
    generalize htext : before ++ replace ++ out = text at h'
    cases h' with
    | done no => exact absurd ⟨before, out, htext⟩ no
    | @next m before' source' _ first' rest' =>
      have hle : before'.length ≤ before.length := find_le (htext ▸ first')
      have hlen := congrArg List.length htext
      simp only [List.length_append] at hlen
      obtain ⟨between, rfl⟩ : out <:+ source' :=
        List.suffix_of_suffix_length_le ⟨_, htext⟩ ⟨_, rfl⟩ (by omega)
      have hout := @searchReplaceLoop_spec _ replace' hsearch _ _ (Nat.lt_succ_self out.length)
      exact Nat.succ_le_succ ((ih hout).trans (hout.le_append between rest'))

/-- The length of the result of two passes, of which the first one puts in what the second replaces. -/
theorem twice_length {search temp replace u : Str} (htemp : temp ≠ [])
    (h : Replaced search temp n source out) (h' : Replaced temp replace m out u)
    (hsearch : search.length ≤ replace.length) (hle : temp.length ≤ replace.length) :
    u.length = source.length + n * (replace.length - search.length) +
      (m - n) * (replace.length - temp.length) := by
  obtain ⟨k, rfl⟩ := Nat.exists_eq_add_of_le (h.le_of_replaced htemp h')
  have h₁ := h.length
  have h₂ := h'.length
  rw [Nat.add_mul, Nat.add_mul] at h₂
  have hn : n * search.length ≤ n * replace.length := Nat.mul_le_mul_left n hsearch
  have hk : k * temp.length ≤ k * replace.length := Nat.mul_le_mul_left k hle
  rw [Nat.add_sub_cancel_left, Nat.mul_sub, Nat.mul_sub]
  omega

theorem eq_of_not_infix (h : Replaced search replace n source out) (hno : ¬ search <:+: source) :
    n = 0 ∧ out = source := by
  cases h with
  | done no => exact ⟨rfl, rfl⟩
  | @next n before source' out' first rest => exact absurd ⟨before, source', rfl⟩ hno

/-- Two passes over a text without either string leave it. -/
theorem twice_eq {temp u : Str} (h : Replaced search temp n source out)
    (h' : Replaced temp replace m out u) (hno : ¬ search <:+: source) (hno' : ¬ temp <:+: source) :
    u = source := by
  obtain ⟨-, rfl⟩ := h.eq_of_not_infix hno
  exact (h'.eq_of_not_infix hno').2

/-- The replacement of a single character. -/
theorem flatMap {c : Char} (h : Replaced [c] replace n source out) :
    out = source.flatMap fun d => if d = c then replace else [d] := by
  have hplain : ∀ text : Str, c ∉ text → text = text.flatMap fun d => if d = c then replace else [d] := by
    intro text hc
    induction text with
    | nil => rfl
    | cons d text ih =>
      rw [List.mem_cons, not_or] at hc
      rw [List.flatMap_cons, if_neg (Ne.symm hc.1), ← ih hc.2, List.singleton_append]
  induction h with
  | @done source no => exact hplain source fun hc => no ((List.singleton_infix_iff c source).mpr hc)
  | @next n before source out first rest ih =>
    obtain ⟨before', after, heq, hlen, hc⟩ := find_singleton first
    rw [List.append_assoc, List.singleton_append] at heq
    obtain ⟨rfl, -⟩ := List.append_inj heq hlen.symm
    rw [List.flatMap_append, List.flatMap_append, ← hplain before hc, ← ih]
    simp

section Twice

variable {temp u : Str} (htemp : temp ≠ []) (h : Replaced search temp n source out)
  (h' : Replaced temp replace m out u)

include htemp h h'

/-- The text becomes longer where something is replaced. -/
theorem lt_of_infix (hlt : search.length < replace.length) (hle : temp.length ≤ replace.length)
    (hin : search <:+: source) : source.length < u.length := by
  have hpos : 0 < n * (replace.length - search.length) :=
    Nat.mul_pos (h.pos_of_infix hin) (Nat.sub_pos_of_lt hlt)
  rw [h.twice_length htemp h' hlt.le hle]
  omega

theorem lt_of_temp (hle : search.length ≤ replace.length) (hlt : temp.length < replace.length)
    (hno : ¬ search <:+: source) (hin : temp <:+: source) : source.length < u.length := by
  obtain ⟨rfl, rfl⟩ := h.eq_of_not_infix hno
  have hpos : 0 < (m - 0) * (replace.length - temp.length) :=
    Nat.mul_pos (h'.pos_of_infix hin) (Nat.sub_pos_of_lt hlt)
  rw [h.twice_length htemp h' hle hlt.le]
  omega

/-- Otherwise the text becomes longer. -/
theorem twice_length_eq_iff (hlt : search.length < replace.length)
    (hlt' : temp.length < replace.length) :
    u.length = source.length ↔ ¬ search <:+: source ∧ ¬ temp <:+: source := by
  constructor
  · intro heq
    have hno : ¬ search <:+: source := fun hin =>
      Nat.ne_of_gt (h.lt_of_infix htemp h' hlt hlt'.le hin) heq
    exact ⟨hno, fun hin => Nat.ne_of_gt (h.lt_of_temp htemp h' hlt.le hlt' hno hin) heq⟩
  · rintro ⟨hno, hno'⟩
    rw [h.twice_eq h' hno hno']

end Twice

end Replaced

end Haarp
