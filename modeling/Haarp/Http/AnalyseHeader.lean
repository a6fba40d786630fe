import Haarp.Cache.Header
import Mathlib.Data.List.DropRight

/-!
# The fields of a header

`HTTPHandler::AnalyseHeader` splits the header of a server into lines and reads the status, the
length and the kind of the transfer from them. A field is read behind `Name:` and blanks, whatever
their number (`analyseToken`).

`analyseHeader_length`: the length that is left is the number of the last line that is a field
`Content-Length` with a number (`LengthField`).
-/

namespace Haarp

/-- The members of `ConnectionToHTTP` that the header of a server sets. -/
structure ConnectionToHTTP extends Analysed where
  IsImage : Bool
  tokens : List Str
  deriving DecidableEq, Repr

namespace ConnectionToHTTP

/-- `ClearVars` -/
def clearVars (c : ConnectionToHTTP) : ConnectionToHTTP :=
  { c with ContentLength := -1, IsKeepAlive := false, IsImage := false, IsChunked := false }

/-- `AnalyseFirstHeaderLine`; `npos + 1` is 0. -/
def analyseFirstHeaderLine (RequestT : Str) (c : ConnectionToHTTP) : Int × ConnectionToHTTP :=
  let Space := find [' '] RequestT
  if Space = some 0 then (-230, c)
  else
    let behind := RequestT.drop (Space.elim 0 (· + 1))
    let Response := (behind.dropWhile fun d => !d.isDigit).take 3
    if Response.isEmpty then (-230, c)
    else (0, { c with HTMLResponse := Nat.ofDigitChars 10 (Response.takeWhile Char.isDigit) 0 })

/-- `CONTENT-LENGTH` -/
def lengthName : Str := ['C', 'O', 'N', 'T', 'E', 'N', 'T', '-', 'L', 'E', 'N', 'G', 'T', 'H']

/-- `CONNECTION: KEEP-ALIVE` -/
def keepAlive : Str :=
  ['C', 'O', 'N', 'N', 'E', 'C', 'T', 'I', 'O', 'N', ':', ' ', 'K', 'E', 'E', 'P', '-', 'A', 'L', 'I',
    'V', 'E']

/-- `CONTENT-TYPE: IMAGE/` -/
def imageType : Str :=
  ['C', 'O', 'N', 'T', 'E', 'N', 'T', '-', 'T', 'Y', 'P', 'E', ':', ' ', 'I', 'M', 'A', 'G', 'E', '/']

/-- `TRANSFER-ENCODING: ` -/
def transferEncoding : Str :=
  ['T', 'R', 'A', 'N', 'S', 'F', 'E', 'R', '-', 'E', 'N', 'C', 'O', 'D', 'I', 'N', 'G', ':', ' ']

/-- `CHUNKED` -/
def chunked : Str := ['C', 'H', 'U', 'N', 'K', 'E', 'D']

/-- `AnalyseHeaderLine`; `MatchSubstr` reads up to a NUL. -/
def analyseHeaderLine (RequestT : Str) (c : ConnectionToHTTP) : Int × ConnectionToHTTP :=
  if RequestT.length > 16 then
    let RequestU := UpperCase RequestT
    if lengthName ++ [':', ' '] <+: RequestU then
      if (findFirstNotOf ['0', '1', '2', '3', '4', '5', '6', '7', '8', '9'] (RequestU.drop 16)).isSome
      then (0, c)
      else
        let LengthToken := RequestT.drop 16
        if LengthToken.length > 18 then (0, c)
        else (0, { c with ContentLength := Nat.ofDigitChars 10 LengthToken 0 })
    else if (find keepAlive (RequestU.takeWhile (· ≠ '\x00'))).isSome then
      (0, { c with IsKeepAlive := true })
    else if imageType <+: RequestU then (0, { c with IsImage := true })
    else if transferEncoding ++ chunked <+: RequestU then (0, { c with IsChunked := true })
    else if transferEncoding <+: RequestU then (-232, c)
    else (0, c)
  else (0, c)

def push (token : Str) (c : ConnectionToHTTP) : ConnectionToHTTP :=
  { c with tokens := c.tokens ++ [token] }

/-- A line of `AnalyseHeader` that is not the first one. A value gets exactly one blank in front. -/
def analyseField (tempToken : Str) (c : ConnectionToHTTP) : Int × ConnectionToHTTP :=
  match find [':'] tempToken with
  | none => (0, c.push tempToken)
  | some positiontmp =>
    let headerbase := tempToken.take (positiontmp + 1) ++ [' ']
    let value := tempToken.drop (positiontmp + 1)
    match findFirstNotOf [' '] value with
    | none => (0, c.push tempToken)
    | some blanks =>
      let tempToken := headerbase ++ value.drop blanks
      let (ret, c) := analyseHeaderLine tempToken c
      if ret < 0 then (ret, c) else (0, c.push tempToken)

/-- The loop of `AnalyseHeader`: lines of blanks are skipped, the first other line is the status. -/
def analyseLines : Bool → List Str → ConnectionToHTTP → Int × ConnectionToHTTP
  | _, [], c => (0, c)
  | First, line :: lines, c =>
    let tempToken := line.rdropWhile (· ∈ ['\t', ' '])
    if tempToken.isEmpty then analyseLines First lines c
    else
      let (ret, c) :=
        if First then
          let (ret, c) := analyseFirstHeaderLine tempToken c
          if ret < 0 then (ret, c) else (0, c.push tempToken)
        else analyseField tempToken c
      if ret < 0 then (ret, c) else analyseLines false lines c

/-- The lines that end in `\n`; `piece` is the text since the last one. -/
def lfLines : Str → Str → List Str
  | _, [] => []
  | piece, c :: text => if c = '\n' then piece :: lfLines [] text else lfLines (piece ++ [c]) text

/-- `AnalyseHeader`: the value, and what it has read. -/
def analyseHeader (linesT : Str) (c : ConnectionToHTTP) : Int × ConnectionToHTTP :=
  let linesT := linesT.filter (· ≠ '\r')
  let c := { c with tokens := [] }
  if '\n' ∈ linesT then analyseLines true (lfLines [] linesT) c else (-201, c)

/-! ## The field with the length -/

/-- The line is a field `Content-Length`, in any case, with the number `n` of at most 18 digits. -/
def LengthField (line : Str) (n : Nat) : Prop :=
  ∃ name spaces digits blanks, line = name ++ ':' :: (spaces ++ digits ++ blanks) ∧
    UpperCase name = lengthName ∧ (∀ d ∈ spaces, d = ' ') ∧ (∀ d ∈ digits, d.isDigit = true) ∧
    digits ≠ [] ∧ digits.length ≤ 18 ∧ (∀ d ∈ blanks, d = '\t' ∨ d = ' ') ∧
    n = Nat.ofDigitChars 10 digits 0

theorem upper_of_isDigit {d : Char} (hd : d.isDigit = true) : upper d = d := by
  have hlt : ¬ ('a' ≤ d ∧ d ≤ 'z') := by
    rintro ⟨ha, -⟩
    rw [Char.le_def, UInt32.le_iff_toNat_le] at ha
    have hnine := (Char.isDigit_iff_toNat.mp hd).2
    exact absurd (Nat.le_trans ha hnine) (by decide)
  rw [upper, if_neg hlt]

/-- A character in upper case is not a letter in lower case. -/
theorem upper_cases (d : Char) : upper d = d ∨ (upper d).isUpper = true := by
  by_cases hd : 'a' ≤ d ∧ d ≤ 'z'
  · right
    have hletters : ∀ n < 123, 97 ≤ n → (Char.ofNat (n - 32)).isUpper = true := by decide
    have ha := hd.1
    have hz := hd.2
    rw [Char.le_def, UInt32.le_iff_toNat_le] at ha hz
    rw [upper, if_pos hd]
    exact hletters d.toNat (Nat.lt_succ_of_le hz) ha
  · left
    rw [upper, if_neg hd]

theorem upper_eq_iff {c d : Char} (hc : c.isUpper = false) : upper d = c → d = c := by
  intro h
  rcases upper_cases d with hd | hd
  · rw [← hd, h]
  · rw [h, hc] at hd
    cases hd

theorem mem_digits_iff {d : Char} :
    d ∈ ['0', '1', '2', '3', '4', '5', '6', '7', '8', '9'] ↔ d.isDigit = true := by
  constructor
  · have hdigits : ∀ d ∈ ['0', '1', '2', '3', '4', '5', '6', '7', '8', '9'], d.isDigit = true :=
      List.all_eq_true.mp rfl
    exact hdigits d
  · intro hd
    have hdigits : ∀ n < 58, 48 ≤ n →
        Char.ofNat n ∈ ['0', '1', '2', '3', '4', '5', '6', '7', '8', '9'] := by decide
    obtain ⟨hzero, hnine⟩ := Char.isDigit_iff_toNat.mp hd
    have hmem := hdigits d.toNat (Nat.lt_succ_of_le hnine) hzero
    rwa [Char.ofNat_toNat] at hmem

theorem upper_mem_digits {d : Char} :
    upper d ∈ ['0', '1', '2', '3', '4', '5', '6', '7', '8', '9'] ↔ d.isDigit = true := by
  constructor
  · intro h
    have hdigits : ['0', '1', '2', '3', '4', '5', '6', '7', '8', '9'].all (!·.isUpper) = true := rfl
    have hd := upper_eq_iff ((Bool.not_eq_true' _).mp (List.all_eq_true.mp hdigits _ h)) rfl
    exact mem_digits_iff.mp (hd ▸ h)
  · intro h
    rw [upper_of_isDigit h]
    exact mem_digits_iff.mpr h

/-- The test for other characters than digits. -/
theorem findFirstNotOf_digits (str : Str) :
    (findFirstNotOf ['0', '1', '2', '3', '4', '5', '6', '7', '8', '9'] (UpperCase str)).isSome = true ↔
      ¬ ∀ d ∈ str, d.isDigit = true := by
  rw [findFirstNotOf, List.findIdx?_isSome, List.any_eq_true, UpperCase]
  simp only [List.mem_map, decide_eq_true_eq, exists_exists_and_eq_and, upper_mem_digits, not_forall,
    exists_prop]

/-- What `AnalyseHeaderLine` takes for a length. -/
def LengthToken (token : Str) (n : Nat) : Prop :=
  ∃ name digits, token = name ++ digits ∧ UpperCase name = lengthName ++ [':', ' '] ∧
    (∀ d ∈ digits, d.isDigit = true) ∧ digits ≠ [] ∧ digits.length ≤ 18 ∧
    n = Nat.ofDigitChars 10 digits 0

theorem lengthToken_iff {token : Str} {n : Nat} :
    LengthToken token n ↔ token.length > 16 ∧ lengthName ++ [':', ' '] <+: UpperCase token ∧
      (∀ d ∈ token.drop 16, d.isDigit = true) ∧ (token.drop 16).length ≤ 18 ∧
      n = Nat.ofDigitChars 10 (token.drop 16) 0 := by
  constructor
  · rintro ⟨name, digits, rfl, hname, hdigits, hne, hle, rfl⟩
    have hlength : name.length = 16 := by
      have h := congrArg List.length hname
      rw [UpperCase, List.length_map] at h
      exact h
    have hpos := List.length_pos_iff.mpr hne
    have hdrop : (name ++ digits).drop 16 = digits := by rw [← hlength, List.drop_left]
    rw [hdrop]
    refine ⟨?_, ?_, hdigits, hle, rfl⟩
    · rw [List.length_append]
      omega
    · rw [UpperCase, List.map_append, ← UpperCase, hname]
      exact List.prefix_append _ _
  · rintro ⟨hlength, hleads, hdigits, hle, rfl⟩
    refine ⟨token.take 16, token.drop 16, (List.take_append_drop 16 token).symm, ?_, hdigits, ?_, hle,
      rfl⟩
    · have htake := List.prefix_iff_eq_take.mp hleads
      rw [UpperCase, List.map_take]
      exact htake.symm
    · rw [ne_eq, List.drop_eq_nil_iff, Nat.not_le]
      exact hlength

/-- `AnalyseHeaderLine` sets the length to that of the token, or leaves it. -/
theorem analyseHeaderLine_length (token : Str) (c : ConnectionToHTTP) :
    (∃ n : Nat, LengthToken token n ∧ analyseHeaderLine token c = (0, { c with ContentLength := n })) ∨
    ((∀ n, ¬ LengthToken token n) ∧
      (analyseHeaderLine token c).2.ContentLength = c.ContentLength) := by
  rw [analyseHeaderLine]
  by_cases hlength : token.length > 16
  · rw [if_pos hlength]
    by_cases hleads : lengthName ++ [':', ' '] <+: UpperCase token
    · simp only [if_pos hleads]
      have hdrop : (UpperCase token).drop 16 = UpperCase (token.drop 16) := by
        rw [UpperCase, UpperCase, List.map_drop]
      have hsome := findFirstNotOf_digits (token.drop 16)
      rw [hdrop]
      by_cases hdigits : ∀ d ∈ token.drop 16, d.isDigit = true
      · rw [if_neg fun h => hsome.mp h hdigits]
        by_cases hle : (token.drop 16).length > 18
        · rw [if_pos hle]
          exact .inr ⟨fun n hn => (Nat.not_le.mpr hle) (lengthToken_iff.mp hn).2.2.2.1, rfl⟩
        · rw [if_neg hle]
          exact .inl ⟨_, lengthToken_iff.mpr ⟨hlength, hleads, hdigits, Nat.not_lt.mp hle, rfl⟩, rfl⟩
      · rw [if_pos (hsome.mpr hdigits)]
        exact .inr ⟨fun n hn => hdigits (lengthToken_iff.mp hn).2.2.1, rfl⟩
    · refine .inr ⟨fun n hn => hleads (lengthToken_iff.mp hn).2.1, ?_⟩
      simp only [if_neg hleads]
      split_ifs <;> rfl
  · rw [if_neg hlength]
    exact .inr ⟨fun n hn => hlength (lengthToken_iff.mp hn).1, rfl⟩

theorem colon_not_mem_name {name : Str} (h : UpperCase name = lengthName) : ':' ∉ name := by
  intro hmem
  have hupper : upper ':' ∈ UpperCase name := List.mem_map_of_mem hmem
  rw [h] at hupper
  exact absurd hupper (by decide)

theorem getLast?_value {name value : Str} {d : Char} (h : value.getLast? = some d) :
    (name ++ ':' :: value).getLast? = some d := by
  cases value with
  | nil => cases h
  | cons e value =>
    rw [List.getLast?_append_of_ne_nil _ (List.cons_ne_nil _ _), List.getLast?_cons_cons, h]

/-- A token behind its name and one blank is a length exactly when the line is such a field. -/
theorem lengthToken_field {name value : Str} (hname : ':' ∉ name)
    (hlast : ∀ d, value.getLast? = some d → ¬ (d = '\t' ∨ d = ' ')) {n : Nat} :
    LengthToken (name ++ [':'] ++ [' '] ++ value.dropWhile (· ∈ [' '])) n ↔
      LengthField (name ++ ':' :: value) n := by
  constructor
  · rintro ⟨label, digits, heq, hlabel, hdigits, hne, hle, rfl⟩
    obtain ⟨label, end₂, rfl, hupper, hend⟩ := List.map_eq_append_iff.mp hlabel
    obtain ⟨colon, end₁, rfl, hcolon, hend⟩ := List.map_eq_cons_iff.mp hend
    obtain ⟨blank, end₀, rfl, hblank, hend⟩ := List.map_eq_cons_iff.mp hend
    obtain rfl := List.map_eq_nil_iff.mp hend
    obtain rfl := upper_eq_iff (by decide) hcolon
    obtain rfl := upper_eq_iff (by decide) hblank
    have h : name ++ ':' :: (' ' :: value.dropWhile (· ∈ [' '])) = label ++ ':' :: (' ' :: digits) := by
      simpa using heq
    obtain ⟨rfl, htail⟩ := append_cons_inj hname (colon_not_mem_name hupper) h
    obtain ⟨-, hvalue⟩ := List.cons.inj htail
    refine ⟨name, value.takeWhile (· ∈ [' ']), digits, [], ?_, hupper, ?_, hdigits, hne, hle, nofun,
      rfl⟩
    · rw [← hvalue, List.append_nil, List.takeWhile_append_dropWhile]
    · intro d hd
      simpa using List.mem_takeWhile_imp hd
  · rintro ⟨name', spaces, digits, blanks, heq, hupper, hspaces, hdigits, hne, hle, hblanks, rfl⟩
    obtain ⟨rfl, rfl⟩ := append_cons_inj hname (colon_not_mem_name hupper) heq
    have hnil : blanks = [] := by
      by_contra hblank
      refine hlast (blanks.getLast hblank) ?_ (hblanks _ (List.getLast_mem hblank))
      rw [List.getLast?_append_of_ne_nil _ hblank, List.getLast?_eq_some_getLast hblank]
    obtain ⟨d, digits, rfl⟩ := List.exists_cons_of_ne_nil hne
    have hd : ¬ decide (d ∈ [' ']) = true := by
      intro h
      obtain rfl : d = ' ' := by simpa using h
      exact absurd (hdigits _ List.mem_cons_self) (by decide)
    have hdrop : (spaces ++ (d :: digits) ++ blanks).dropWhile (· ∈ [' ']) = d :: digits := by
      rw [hnil, List.append_nil, List.dropWhile_append_of_pos]
      · exact List.dropWhile_cons_of_neg (p := fun e => decide (e ∈ [' '])) hd
      · intro e he
        simpa using hspaces e he
    refine ⟨name ++ [':', ' '], d :: digits, ?_, ?_, hdigits, hne, hle, rfl⟩
    · rw [hdrop]
      simp
    · rw [UpperCase, List.map_append, ← UpperCase, hupper]
      rfl

/-- The blanks behind a line do not matter. -/
theorem lengthField_rdropWhile {line : Str} {n : Nat} :
    LengthField (line.rdropWhile (· ∈ ['\t', ' '])) n ↔ LengthField line n := by
  constructor
  · rintro ⟨name, spaces, digits, blanks, heq, hupper, hspaces, hdigits, hne, hle, hblanks, hn⟩
    refine ⟨name, spaces, digits, blanks ++ line.rtakeWhile (· ∈ ['\t', ' ']), ?_, hupper, hspaces,
      hdigits, hne, hle, ?_, hn⟩
    · have hsplit := line.rdropWhile_append_rtakeWhile (p := (· ∈ ['\t', ' ']))
      rw [heq] at hsplit
      refine hsplit.symm.trans ?_
      simp
    · intro d hd
      rcases List.mem_append.mp hd with hd | hd
      · exact hblanks d hd
      · simpa using List.mem_rtakeWhile_imp hd
  · rintro ⟨name, spaces, digits, blanks, rfl, hupper, hspaces, hdigits, hne, hle, hblanks, hn⟩
    refine ⟨name, spaces, digits, [], ?_, hupper, hspaces, hdigits, hne, hle, nofun, hn⟩
    have hpos : ∀ d ∈ blanks.reverse, decide (d ∈ ['\t', ' ']) = true := by
      intro d hd
      simpa using hblanks d (List.mem_reverse.mp hd)
    have hself : (name ++ ':' :: (spaces ++ digits)).rdropWhile (· ∈ ['\t', ' ']) =
        name ++ ':' :: (spaces ++ digits) := by
      rw [List.rdropWhile_eq_self_iff]
      intro hl hblank
      have hlast : (name ++ ':' :: (spaces ++ digits)).getLast hl = digits.getLast hne := by
        have heq : name ++ ':' :: (spaces ++ digits) = name ++ ':' :: spaces ++ digits := by simp
        rw [List.getLast_congr hl (by simp) heq, List.getLast_append_of_ne_nil _ hne]
      rw [hlast] at hblank
      have hdigit := hdigits _ (List.getLast_mem hne)
      rcases (by simpa using hblank : digits.getLast hne = '\t' ∨ digits.getLast hne = ' ') with h | h
      · rw [h] at hdigit
        exact absurd hdigit (by decide)
      · rw [h] at hdigit
        exact absurd hdigit (by decide)
    rw [List.append_nil, ← hself, List.rdropWhile, List.rdropWhile]
    have hreverse : (name ++ ':' :: (spaces ++ digits ++ blanks)).reverse =
        blanks.reverse ++ (name ++ ':' :: (spaces ++ digits)).reverse := by
      simp
    rw [hreverse, List.dropWhile_append_of_pos hpos]

/-- A line that is not the first one sets the length to that of the field, or leaves it. -/
theorem analyseField_length {token : Str} {c c' : ConnectionToHTTP} {ret : Int}
    (hlast : ∀ d, token.getLast? = some d → ¬ (d = '\t' ∨ d = ' '))
    (h : analyseField token c = (ret, c')) :
    (∃ n : Nat, LengthField token n ∧ c'.ContentLength = n) ∨
      ((∀ n, ¬ LengthField token n) ∧ c'.ContentLength = c.ContentLength) := by
  rw [analyseField] at h
  split at h
  · rename_i hfind
    cases h
    refine .inr ⟨?_, rfl⟩
    rintro n ⟨name, spaces, digits, blanks, rfl, -⟩
    exact not_mem_of_find hfind (by simp)
  · rename_i position hfind
    obtain ⟨name, value, rfl, rfl, hname⟩ := find_singleton hfind
    have htake : (name ++ ':' :: value).take (name.length + 1) = name ++ [':'] := by
      rw [List.take_length_add_append]
      rfl
    have hdrop : (name ++ ':' :: value).drop (name.length + 1) = value := by
      rw [List.drop_length_add_append]
      rfl
    obtain ⟨hvalue, hsome⟩ := findFirstNotOf_drop [' '] value
    have hlast' := fun d hd => hlast d (getLast?_value hd)
    simp only [htake, hdrop] at h
    split at h
    · rename_i hnone
      cases h
      refine .inr ⟨?_, rfl⟩
      rintro n ⟨name', spaces, digits, blanks, heq, hupper, -, hdigits, hne, -, -, -⟩
      obtain ⟨-, rfl⟩ := append_cons_inj hname (colon_not_mem_name hupper) heq
      rw [hnone] at hvalue
      obtain ⟨d, digits, rfl⟩ := List.exists_cons_of_ne_nil hne
      have hblank := List.dropWhile_eq_nil_iff.mp hvalue.symm d (by simp)
      obtain rfl : d = ' ' := by simpa using hblank
      exact absurd (hdigits _ List.mem_cons_self) (by decide)
    · rename_i blanks hfirst
      rw [hfirst] at hvalue
      simp only [Option.elim_some] at hvalue
      rw [hvalue] at h
      have hiff := fun n => @lengthToken_field name value hname hlast' n
      have hread := analyseHeaderLine_length
        (name ++ [':'] ++ [' '] ++ value.dropWhile (· ∈ [' '])) c
      generalize hline : analyseHeaderLine
        (name ++ [':'] ++ [' '] ++ value.dropWhile (· ∈ [' '])) c = out at h hread
      obtain ⟨ret', c₁⟩ := out
      simp only at h hread
      have hc' : c'.ContentLength = c₁.ContentLength := by
        split at h
        · cases h
          rfl
        · cases h
          rfl
      rw [hc']
      rcases hread with ⟨n, hn, heq⟩ | ⟨hnone, heq⟩
      · obtain ⟨-, rfl⟩ := Prod.mk.inj heq
        exact .inl ⟨n, (hiff n).mp hn, rfl⟩
      · exact .inr ⟨fun n hn => hnone n ((hiff n).mpr hn), heq⟩

theorem getLast?_rdropWhile {line : Str} {d : Char}
    (h : (line.rdropWhile (· ∈ ['\t', ' '])).getLast? = some d) : ¬ (d = '\t' ∨ d = ' ') := by
  have hne : line.rdropWhile (· ∈ ['\t', ' ']) ≠ [] := by
    intro hnil
    rw [hnil] at h
    cases h
  have hnot := List.rdropWhile_last_not (· ∈ ['\t', ' ']) line hne
  rw [List.getLast?_eq_some_getLast hne] at h
  rw [Option.some.inj h] at hnot
  simpa using hnot

theorem LengthField.unique {line : Str} {n m : Nat} (hn : LengthField line n)
    (hm : LengthField line m) : n = m := by
  rw [← lengthField_rdropWhile] at hn hm
  obtain ⟨name, spaces, digits, blanks, heq, hupper, -⟩ := id hn
  rw [heq] at hn hm
  have hlast := fun d hd => getLast?_rdropWhile (heq ▸ getLast?_value (d := d) hd)
  have hn' := (lengthToken_field (colon_not_mem_name hupper) hlast).mpr hn
  have hm' := (lengthToken_field (colon_not_mem_name hupper) hlast).mpr hm
  rw [(lengthToken_iff.mp hn').2.2.2.2, (lengthToken_iff.mp hm').2.2.2.2]

/-- The last field with a length has the number `n`. -/
def LastLength (lines : List Str) (n : Nat) : Prop :=
  ∃ before line after, lines = before ++ line :: after ∧ LengthField line n ∧
    ∀ l ∈ after, ∀ m, ¬ LengthField l m

theorem lastLength_nil (n : Nat) : ¬ LastLength [] n := by
  rintro ⟨before, line, after, heq, -⟩
  exact absurd heq.symm (by simp)

theorem lastLength_cons {line : Str} {lines : List Str} {n : Nat} :
    LastLength (line :: lines) n ↔
      LastLength lines n ∨ (LengthField line n ∧ ∀ l ∈ lines, ∀ m, ¬ LengthField l m) := by
  constructor
  · rintro ⟨before, field, after, heq, hfield, hafter⟩
    cases before with
    | nil =>
      obtain ⟨rfl, rfl⟩ := List.cons.inj heq
      exact .inr ⟨hfield, hafter⟩
    | cons l before =>
      obtain ⟨rfl, rfl⟩ := List.cons.inj heq
      exact .inl ⟨before, field, after, rfl, hfield, hafter⟩
  · rintro (⟨before, field, after, rfl, hfield, hafter⟩ | ⟨hfield, hafter⟩)
    · exact ⟨line :: before, field, after, rfl, hfield, hafter⟩
    · exact ⟨[], line, lines, rfl, hfield, hafter⟩

/-- There is a last field exactly when there is one. -/
theorem no_lastLength_iff {lines : List Str} :
    (∀ n, ¬ LastLength lines n) ↔ ∀ l ∈ lines, ∀ m, ¬ LengthField l m := by
  induction lines with
  | nil => exact ⟨fun _ => nofun, fun _ => lastLength_nil⟩
  | cons line lines ih =>
    constructor
    · intro h
      have hrest := ih.mp fun n hn => h n (lastLength_cons.mpr (.inl hn))
      intro l hl m hm
      rcases List.mem_cons.mp hl with rfl | hl
      · exact h m (lastLength_cons.mpr (.inr ⟨hm, hrest⟩))
      · exact hrest l hl m hm
    · intro h n hn
      rcases lastLength_cons.mp hn with hn | ⟨hfield, -⟩
      · exact ih.mpr (fun l hl => h l (List.mem_cons_of_mem line hl)) n hn
      · exact h line List.mem_cons_self n hfield

/-- What the lines leave as the length: the number of the last field, or the old one. -/
structure ReadsLength (lines : List Str) (old new : Int) : Prop where
  last : ∀ n : Nat, LastLength lines n → new = n
  none : (∀ n, ¬ LastLength lines n) → new = old

theorem analyseLines_fields {lines : List Str} {c c' : ConnectionToHTTP} {ret : Int}
    (h : analyseLines false lines c = (ret, c')) (hret : 0 ≤ ret) :
    ReadsLength lines c.ContentLength c'.ContentLength := by
  induction lines generalizing c with
  | nil =>
    cases h
    exact ⟨fun n hn => absurd hn (lastLength_nil n), fun _ => rfl⟩
  | cons line lines ih =>
    rw [analyseLines] at h
    simp only [Bool.false_eq_true, if_false] at h
    by_cases htoken : line.rdropWhile (· ∈ ['\t', ' ']) = []
    · have hnone : ∀ n, ¬ LengthField line n := by
        intro n hn
        rw [← lengthField_rdropWhile, htoken] at hn
        obtain ⟨name, spaces, digits, blanks, heq, -⟩ := hn
        exact absurd heq.symm (by simp)
      rw [htoken] at h
      have hrest := ih h
      refine ⟨fun n hn => ?_, fun hn => ?_⟩
      · rcases lastLength_cons.mp hn with hn | ⟨hfield, -⟩
        · exact hrest.last n hn
        · exact absurd hfield (hnone n)
      · exact hrest.none fun n hlast => hn n (lastLength_cons.mpr (.inl hlast))
    · rw [if_neg (by simpa using htoken)] at h
      generalize hfield : analyseField (line.rdropWhile (· ∈ ['\t', ' '])) c = out at h
      obtain ⟨ret₁, c₁⟩ := out
      have hread := analyseField_length (fun d hd => getLast?_rdropWhile hd) hfield
      simp only [lengthField_rdropWhile] at hread h
      split at h
      · cases h
        omega
      · have hrest := ih h
        refine ⟨fun n hn => ?_, fun hn => ?_⟩
        · rcases lastLength_cons.mp hn with hn | ⟨hline, hnone⟩
          · exact hrest.last n hn
          · rw [hrest.none (no_lastLength_iff.mpr hnone)]
            rcases hread with ⟨m, hm, heq⟩ | ⟨hno, -⟩
            · rw [heq, hm.unique hline]
            · exact absurd hline (hno n)
        · have hlines : ∀ n, ¬ LastLength lines n := fun n hlast =>
            hn n (lastLength_cons.mpr (.inl hlast))
          rw [hrest.none hlines]
          rcases hread with ⟨m, hm, -⟩ | ⟨-, heq⟩
          · exact absurd (lastLength_cons.mpr (.inr ⟨hm, no_lastLength_iff.mp hlines⟩)) (hn m)
          · exact heq

/-- The lines of a header that are fields: those behind the first one that is not blank. -/
def fieldLines (linesT : Str) : List Str :=
  ((lfLines [] (linesT.filter (· ≠ '\r'))).dropWhile
    fun line => (line.rdropWhile (· ∈ ['\t', ' '])).isEmpty).tail

theorem analyseFirstHeaderLine_length (token : Str) (c : ConnectionToHTTP) :
    (analyseFirstHeaderLine token c).2.ContentLength = c.ContentLength := by
  unfold analyseFirstHeaderLine
  dsimp only
  split_ifs <;> rfl

theorem analyseLines_length {lines : List Str} {c c' : ConnectionToHTTP} {ret : Int}
    (h : analyseLines true lines c = (ret, c')) (hret : 0 ≤ ret) :
    ReadsLength (lines.dropWhile fun line => (line.rdropWhile (· ∈ ['\t', ' '])).isEmpty).tail
      c.ContentLength c'.ContentLength := by
  induction lines generalizing c with
  | nil =>
    cases h
    exact ⟨fun n hn => absurd hn (lastLength_nil n), fun _ => rfl⟩
  | cons line lines ih =>
    rw [analyseLines] at h
    by_cases htoken : (line.rdropWhile (· ∈ ['\t', ' '])).isEmpty = true
    · rw [List.dropWhile_cons, if_pos htoken]
      simp only [if_pos htoken] at h
      exact ih h
    · rw [List.dropWhile_cons, if_neg htoken, List.tail_cons]
      simp only [if_neg htoken, if_true] at h
      have hfirst := analyseFirstHeaderLine_length (line.rdropWhile (· ∈ ['\t', ' '])) c
      generalize analyseFirstHeaderLine (line.rdropWhile (· ∈ ['\t', ' '])) c = out at h hfirst
      obtain ⟨ret₁, c₁⟩ := out
      simp only at h hfirst
      by_cases hneg : ret₁ < 0
      · simp only [hneg, if_true] at h
        cases h
        omega
      · simp only [hneg, if_false, lt_irrefl] at h
        have hrest := analyseLines_fields h hret
        rwa [push, hfirst] at hrest

/-- **The length of a header** is the number of its last field `Content-Length`, if it has one. -/
theorem analyseHeader_length {linesT : Str} {c c' : ConnectionToHTTP} {ret : Int}
    (h : analyseHeader linesT c = (ret, c')) (hret : 0 ≤ ret) :
    ReadsLength (fieldLines linesT) c.ContentLength c'.ContentLength := by
  unfold analyseHeader at h
  dsimp only at h
  split at h
  · have hread := analyseLines_length h hret
    exact hread
  · cases h
    omega

end ConnectionToHTTP
end Haarp
