import Haarp.Proxy.HeaderError
import Haarp.Utils.Replace

/-!
# The tokens of a header

`HTTPHandler::AnalyseHeader` as it is written: it goes through a text by positions, for any functions
that analyse a line. `analyseHeader_exact`: it ends, and when no line is refused the tokens are the
lines of the header, with one blank behind the colon of a field, and only the first line is analysed as
such. `ConnectionToHTTP.analyseHeader`, which goes line by line, does the same
(`handler_analyseHeader`).
-/

namespace Haarp

/-- The functions that a class gives to `HTTPHandler`; they do not change the line. -/
structure HTTPHandler (σ : Type*) where
  analyseFirstHeaderLine : Str → σ → Int × σ
  analyseHeaderLine : Str → σ → Int × σ

/-- `str.find_last_not_of(set)` -/
def findLastNotOf (set str : Str) : Option Nat :=
  (str.reverse.findIdx? fun c => c ∉ set).map fun n => str.length - 1 - n

namespace HTTPHandler

/-! ## The source -/

/-- The loop that deletes each `\r`, if `fuel` turns are enough. -/
def deleteCR : Nat → Nat → Str → Option Str
  | 0, lastposition, linesT =>
    match findFrom ['\r'] lastposition linesT with
    | none => some linesT
    | some _ => none
  | fuel + 1, lastposition, linesT =>
    match findFrom ['\r'] lastposition linesT with
    | none => some linesT
    | some lastposition =>
      deleteCR fuel lastposition (linesT.take lastposition ++ linesT.drop (lastposition + 1))

variable {σ : Type*} (handler : HTTPHandler σ)

/-- What becomes of a line: the code, and the token. -/
def analyseToken (First : Bool) (tempToken : Str) (c : σ) : Int × Str × σ :=
  if First then
    let (ret, c) := handler.analyseFirstHeaderLine tempToken c
    (ret, tempToken, c)
  else
    match find [':'] tempToken with
    | none => (0, tempToken, c)
    | some positiontmp =>
      let headerbase := tempToken.take (positiontmp + 1) ++ [' ']
      match findFirstNotOf [' '] (tempToken.drop (positiontmp + 1)) with
      | none => (0, tempToken, c)
      | some blanks =>
        let tempToken := headerbase ++ tempToken.drop (positiontmp + 1 + blanks)
        let (ret, c) := handler.analyseHeaderLine tempToken c
        (ret, tempToken, c)

/-- The loop of `AnalyseHeader`: the value, `tokens` and what the functions have kept, if `fuel` turns
are enough. `lastposition` is set anew at the end of each turn, so that its use inside does not
matter. -/
def tokenLoop (linesT : Str) :
    Nat → Bool → Nat → Option Nat → List Str → σ → Option (Int × List Str × σ)
  | _, _, _, none, tokens, c => some (0, tokens, c)
  | 0, _, lastposition, some _, tokens, c =>
    if lastposition = linesT.length then some (0, tokens, c) else none
  | fuel + 1, First, lastposition, some position, tokens, c =>
    if lastposition = linesT.length then some (0, tokens, c)
    else
      let tempToken := (linesT.drop lastposition).take (position - lastposition)
      let found := findFrom ['\n'] (position + 1) linesT
      match findLastNotOf ['\t', ' '] tempToken with
      | none => tokenLoop linesT fuel First (position + 1) found tokens c
      | some lastposition =>
        let (ret, tempToken, c) := handler.analyseToken First (tempToken.take (lastposition + 1)) c
        if ret < 0 then some (ret, tokens, c)
        else tokenLoop linesT fuel false (position + 1) found (tokens ++ [tempToken]) c

/-- `AnalyseHeader`: the value, `tokens` and what the functions have kept. -/
def analyseHeader (fuel : Nat) (linesT : Str) (c : σ) : Option (Int × List Str × σ) :=
  (deleteCR fuel 0 linesT).bind fun linesT =>
    match findFrom ['\n'] 0 linesT with
    | none => some (-201, [], c)
    | some position => handler.tokenLoop linesT fuel true 0 (some position) [] c

/-! ## Line by line -/

theorem deleteCR_append {fuel : Nat} {done rest : Str} (hfuel : rest.length ≤ fuel) :
    deleteCR fuel done.length (done ++ rest) = some (done ++ rest.filter (· ≠ '\r')) := by
  induction fuel generalizing done rest with
  | zero =>
    obtain rfl := List.length_eq_zero_iff.mp (Nat.le_zero.mp hfuel)
    rw [deleteCR, findFrom_append]
    rfl
  | succ fuel ih =>
    rw [deleteCR, findFrom_append]
    cases hfind : find ['\r'] rest with
    | none =>
      have hno := not_mem_of_find hfind
      have hkeep : rest.filter (· ≠ '\r') = rest := by
        refine List.filter_eq_self.mpr fun c hc => ?_
        simpa using fun h : c = '\r' => hno (h ▸ hc)
      rw [hkeep]
      rfl
    | some position =>
      obtain ⟨before, after, rfl, rfl, hno⟩ := find_singleton hfind
      have hkeep : before.filter (· ≠ '\r') = before := by
        refine List.filter_eq_self.mpr fun c hc => ?_
        simpa using fun h : c = '\r' => hno (h ▸ hc)
      have hassoc : done ++ (before ++ '\r' :: after) = (done ++ before) ++ '\r' :: after := by
        rw [List.append_assoc]
      have hdrop : (done ++ before ++ '\r' :: after).drop ((done ++ before).length + 1) = after := by
        rw [← List.drop_drop, List.drop_left]
        rfl
      simp only [List.length_append, List.length_cons] at hfuel
      simp only [Option.map_some]
      rw [hassoc, ← List.length_append, List.take_left, hdrop, ih (by omega), List.filter_append, hkeep]
      simp

theorem lfLines_append {before : Str} (hno : '\n' ∉ before) (piece after : Str) :
    ConnectionToHTTP.lfLines piece (before ++ '\n' :: after) =
      (piece ++ before) :: ConnectionToHTTP.lfLines [] after := by
  induction before generalizing piece with
  | nil => simp [ConnectionToHTTP.lfLines]
  | cons c before ih =>
    rw [List.mem_cons, not_or] at hno
    rw [List.cons_append, ConnectionToHTTP.lfLines, if_neg (Ne.symm hno.1), ih hno.2]
    simp

theorem lfLines_of_not_mem {text : Str} (hno : '\n' ∉ text) (piece : Str) :
    ConnectionToHTTP.lfLines piece text = [] := by
  induction text generalizing piece with
  | nil => rfl
  | cons c text ih =>
    rw [List.mem_cons, not_or] at hno
    rw [ConnectionToHTTP.lfLines, if_neg (Ne.symm hno.1), ih hno.2]

/-- The text up to the last character that is not in `set`. -/
theorem take_findLastNotOf (set str : Str) :
    (findLastNotOf set str).map (fun lastposition => str.take (lastposition + 1)) =
      if str.rdropWhile (· ∈ set) = [] then none else some (str.rdropWhile (· ∈ set)) := by
  obtain ⟨hdrop, hsome⟩ := findFirstNotOf_drop set str.reverse
  have hrdrop : str.rdropWhile (· ∈ set) = (str.reverse.dropWhile (· ∈ set)).reverse := rfl
  unfold findLastNotOf
  unfold findFirstNotOf at hdrop hsome
  cases hfind : str.reverse.findIdx? fun c => c ∉ set with
  | none =>
    rw [hfind] at hsome
    have hnil : str.reverse.dropWhile (· ∈ set) = [] := by simpa using hsome
    rw [hrdrop, hnil]
    rfl
  | some n =>
    rw [hfind] at hdrop hsome
    have hne : str.reverse.dropWhile (· ∈ set) ≠ [] := by simpa using hsome
    obtain ⟨hlt, -⟩ := List.findIdx?_eq_some_iff_getElem.mp hfind
    rw [List.length_reverse] at hlt
    have htake : (str.reverse.dropWhile (· ∈ set)).reverse = str.take (str.length - 1 - n + 1) := by
      rw [← hdrop]
      simp only [Option.elim_some]
      rw [List.drop_reverse, List.reverse_reverse]
      congr 1
      omega
    rw [hrdrop, if_neg (by simpa using hne), htake]
    rfl

/-- The loop, line by line. -/
def tokenLines : Bool → List Str → List Str → σ → Int × List Str × σ
  | _, [], tokens, c => (0, tokens, c)
  | First, line :: lines, tokens, c =>
    if line.rdropWhile (· ∈ ['\t', ' ']) = [] then tokenLines First lines tokens c
    else
      let (ret, tempToken, c) :=
        handler.analyseToken First (line.rdropWhile (· ∈ ['\t', ' '])) c
      if ret < 0 then (ret, tokens, c) else tokenLines false lines (tokens ++ [tempToken]) c

/-- The loop at the text `rest` behind the lines that it has been through. -/
theorem tokenLoop_append {fuel : Nat} {First : Bool} {done rest : Str} {tokens : List Str} {c : σ}
    (hfuel : rest.length ≤ fuel) :
    handler.tokenLoop (done ++ rest) fuel First done.length
        ((find ['\n'] rest).map (done.length + ·)) tokens c =
      some (handler.tokenLines First (ConnectionToHTTP.lfLines [] rest) tokens c) := by
  induction fuel generalizing First done rest tokens c with
  | zero =>
    obtain rfl := List.length_eq_zero_iff.mp (Nat.le_zero.mp hfuel)
    rfl
  | succ fuel ih =>
    cases hfind : find ['\n'] rest with
    | none =>
      rw [lfLines_of_not_mem (not_mem_of_find hfind)]
      rfl
    | some position =>
      obtain ⟨line, after, rfl, rfl, hno⟩ := find_singleton hfind
      have hassoc : done ++ (line ++ '\n' :: after) = (done ++ line ++ ['\n']) ++ after := by simp
      have hposition : done.length + line.length + 1 = (done ++ line ++ ['\n']).length := by
        simp [Nat.add_assoc]
      have hmore : done.length ≠ (done ++ (line ++ '\n' :: after)).length := by simp
      have htoken : ((done ++ (line ++ '\n' :: after)).drop done.length).take
          (done.length + line.length - done.length) = line := by
        rw [List.drop_left, Nat.add_sub_cancel_left, List.take_left]
      simp only [List.length_append, List.length_cons] at hfuel
      have hrest : after.length ≤ fuel := by omega
      have htake := take_findLastNotOf ['\t', ' '] line
      rw [lfLines_append hno, List.nil_append, Option.map_some, tokenLoop, if_neg hmore, tokenLines]
      dsimp only
      rw [htoken, hassoc, hposition, findFrom_append]
      cases hlast : findLastNotOf ['\t', ' '] line with
      | none =>
        have hblank : line.rdropWhile (· ∈ ['\t', ' ']) = [] := by
          by_contra hne
          rw [hlast, if_neg hne] at htake
          cases htake
        rw [if_pos hblank]
        exact ih hrest
      | some lastposition =>
        have hne : line.rdropWhile (· ∈ ['\t', ' ']) ≠ [] := by
          intro hblank
          rw [hlast, if_pos hblank] at htake
          cases htake
        rw [hlast, if_neg hne] at htake
        rw [if_neg hne, ← Option.some.inj htake]
        dsimp only
        split
        · rfl
        · exact ih hrest

/-- `AnalyseHeader`, line by line. -/
theorem analyseHeader_eq {fuel : Nat} {text : Str} (hfuel : text.length < fuel) (c : σ) :
    handler.analyseHeader fuel text c =
      if '\n' ∈ text then
        some (handler.tokenLines true (ConnectionToHTTP.lfLines [] (text.filter (· ≠ '\r'))) [] c)
      else some (-201, [], c) := by
  have hdelete := @deleteCR_append fuel [] text (Nat.le_of_lt hfuel)
  simp only [List.length_nil, List.nil_append] at hdelete
  have hmem : '\n' ∈ text.filter (· ≠ '\r') ↔ '\n' ∈ text := by simp
  have hlength : (text.filter (· ≠ '\r')).length ≤ fuel :=
    (List.length_filter_le _ _).trans (Nat.le_of_lt hfuel)
  have hfrom := findFrom_append ['\n'] [] (text.filter (· ≠ '\r'))
  have hloop : handler.tokenLoop ([] ++ text.filter (· ≠ '\r')) fuel true 0 _ [] c = _ :=
    handler.tokenLoop_append hlength
  simp only [List.length_nil, List.nil_append] at hfrom hloop
  rw [analyseHeader, hdelete, Option.bind_some, hfrom]
  cases hfind : find ['\n'] (text.filter (· ≠ '\r')) with
  | none =>
    rw [if_neg fun h => not_mem_of_find hfind (hmem.mpr h)]
    rfl
  | some position =>
    have hin : '\n' ∈ text := by
      obtain ⟨before, after, heq, -, -⟩ := find_singleton hfind
      exact hmem.mp (by rw [heq]; simp)
    rw [if_pos hin, ← hloop, hfind]
    rfl

/-! ## The tokens -/

/-- The text behind the first colon of a line, without the blanks in front. -/
def fieldValue (line : Str) : Str := (line.dropWhile (· ≠ ':')).tail.dropWhile (· ∈ [' '])

/-- A field with a value has one blank behind its first colon. -/
def spacedField (line : Str) : Str :=
  if fieldValue line = [] then line else line.takeWhile (· ≠ ':') ++ ':' :: ' ' :: fieldValue line

/-- The fields that have a value, with one blank behind the first colon. -/
def spacedFields (lines : List Str) : List Str :=
  (lines.filter fun line => fieldValue line ≠ []).map spacedField

/-- The fields are analysed one after the other, and no one is refused. -/
def acceptFields : List Str → σ → Option σ
  | [], c => some c
  | field :: fields, c =>
    if (handler.analyseHeaderLine field c).1 < 0 then none
    else acceptFields fields (handler.analyseHeaderLine field c).2

/-- No line is refused: the first one as such, and the others that have a value as fields; `c'` is
what is kept then. -/
def Accepts (lines : List Str) (c c' : σ) : Prop :=
  match lines with
  | [] => c' = c
  | status :: fields =>
    0 ≤ (handler.analyseFirstHeaderLine status c).1 ∧
      handler.acceptFields (spacedFields fields) (handler.analyseFirstHeaderLine status c).2 = some c'

theorem fieldValue_of_not_mem {line : Str} (h : ':' ∉ line) : fieldValue line = [] := by
  have hdrop : line.dropWhile (· ≠ ':') = [] := by
    refine List.dropWhile_eq_nil_iff.mpr fun c hc => ?_
    simpa using fun heq : c = ':' => h (heq ▸ hc)
  rw [fieldValue, hdrop]
  rfl

theorem fieldValue_field {name : Str} (h : ':' ∉ name) (value : Str) :
    fieldValue (name ++ ':' :: value) = value.dropWhile (· ∈ [' ']) ∧
      (name ++ ':' :: value).takeWhile (· ≠ ':') = name := by
  have hname : ∀ c ∈ name, decide (c ≠ ':') = true := by
    intro c hc
    simpa using fun heq : c = ':' => h (heq ▸ hc)
  constructor
  · rw [fieldValue, List.dropWhile_append_of_pos hname]
    rfl
  · rw [List.takeWhile_append_of_pos hname]
    simp

/-- A line without a value is left alone, and one with a value is analysed with one blank. -/
theorem analyseToken_false (line : Str) (c : σ) :
    handler.analyseToken false line c =
      if fieldValue line = [] then (0, line, c)
      else ((handler.analyseHeaderLine (spacedField line) c).1, spacedField line,
        (handler.analyseHeaderLine (spacedField line) c).2) := by
  unfold analyseToken
  cases hcolon : find [':'] line with
  | none => rw [if_pos (fieldValue_of_not_mem (not_mem_of_find hcolon))]; rfl
  | some positiontmp =>
    obtain ⟨name, value, rfl, rfl, hno⟩ := find_singleton hcolon
    obtain ⟨hvalue, hname⟩ := fieldValue_field hno value
    obtain ⟨hdrop, hsome⟩ := findFirstNotOf_drop [' '] value
    have hbehind : ∀ n, (name ++ ':' :: value).drop (name.length + 1 + n) = value.drop n := by
      intro n
      rw [Nat.add_assoc, ← List.drop_drop, List.drop_left, Nat.add_comm 1, List.drop_succ_cons]
    have hbase : (name ++ ':' :: value).take (name.length + 1) = name ++ [':'] := by
      rw [List.take_append]
      simp
    have hblanks := hbehind 0
    rw [Nat.add_zero, List.drop_zero] at hblanks
    rw [spacedField, hvalue, hname]
    simp only [Bool.false_eq_true, if_false, hblanks, hbehind, hbase]
    cases hfind : findFirstNotOf [' '] value with
    | none =>
      rw [hfind] at hsome
      rw [if_pos (by simpa using hsome)]
    | some blanks =>
      rw [hfind] at hdrop hsome
      rw [Option.elim_some] at hdrop
      have hne : value.dropWhile (· ∈ [' ']) ≠ [] := by simpa using hsome
      rw [if_neg hne, if_neg hne, ← hdrop]
      simp

/-- The lines behind the first one. -/
theorem tokenLines_false (lines tokens : List Str) (c : σ) :
    (∀ c', handler.acceptFields (spacedFields (lineTokens lines)) c = some c' →
      handler.tokenLines false lines tokens c =
        (0, tokens ++ (lineTokens lines).map spacedField, c')) ∧
    (handler.acceptFields (spacedFields (lineTokens lines)) c = none →
      (handler.tokenLines false lines tokens c).1 < 0) := by
  induction lines generalizing tokens c with
  | nil =>
    refine ⟨fun c' h => ?_, fun h => ?_⟩
    · cases h
      simp [tokenLines, lineTokens]
    · cases h
  | cons line lines ih =>
    rw [lineTokens_cons, tokenLines]
    by_cases hblank : line.rdropWhile (· ∈ ['\t', ' ']) = []
    · rw [if_pos hblank, if_pos hblank]
      exact ih tokens c
    · rw [if_neg hblank, if_neg hblank]
      generalize line.rdropWhile (· ∈ ['\t', ' ']) = token
      rw [analyseToken_false]
      unfold spacedFields at ih ⊢
      by_cases hvalue : fieldValue token = []
      · have hplain : spacedField token = token := if_pos hvalue
        rw [if_pos hvalue, List.filter_cons_of_neg (by simpa using hvalue), List.map_cons, hplain]
        simpa using ih (tokens ++ [token]) c
      · rw [if_neg hvalue, List.filter_cons_of_pos (by simpa using hvalue), List.map_cons, List.map_cons,
          acceptFields]
        dsimp only
        by_cases hrefused : (handler.analyseHeaderLine (spacedField token) c).1 < 0
        · rw [if_pos hrefused, if_pos hrefused]
          refine ⟨fun c' h => ?_, fun _ => hrefused⟩
          cases h
        · rw [if_neg hrefused, if_neg hrefused]
          have := ih (tokens ++ [spacedField token]) (handler.analyseHeaderLine (spacedField token) c).2
          simpa using this

/-- All lines. -/
theorem tokenLines_true (lines : List Str) (c : σ) :
    (∀ c', handler.Accepts (lineTokens lines) c c' →
      handler.tokenLines true lines [] c =
        (0, (lineTokens lines).head?.toList ++ (lineTokens lines).tail.map spacedField, c')) ∧
    ((∀ c', ¬ handler.Accepts (lineTokens lines) c c') →
      (handler.tokenLines true lines [] c).1 < 0) := by
  induction lines with
  | nil =>
    refine ⟨fun c' h => ?_, fun h => absurd rfl (h c)⟩
    rw [show c' = c from h]
    rfl
  | cons line lines ih =>
    rw [lineTokens_cons, tokenLines]
    by_cases hblank : line.rdropWhile (· ∈ ['\t', ' ']) = []
    · rw [if_pos hblank, if_pos hblank]
      exact ih
    · rw [if_neg hblank, if_neg hblank]
      generalize line.rdropWhile (· ∈ ['\t', ' ']) = status
      obtain ⟨haccepted, hrefused⟩ := handler.tokenLines_false lines [status]
        (handler.analyseFirstHeaderLine status c).2
      simp only [analyseToken, if_true, Accepts, List.head?_cons, Option.toList_some, List.tail_cons,
        List.nil_append]
      by_cases hstatus : (handler.analyseFirstHeaderLine status c).1 < 0
      · rw [if_pos hstatus]
        exact ⟨fun c' h => absurd hstatus (Int.not_lt.mpr h.1), fun _ => hstatus⟩
      · rw [if_neg hstatus]
        refine ⟨fun c' h => haccepted c' h.2, fun h => ?_⟩
        cases hfields : handler.acceptFields (spacedFields (lineTokens lines))
            (handler.analyseFirstHeaderLine status c).2 with
        | none => exact hrefused hfields
        | some c' => exact absurd ⟨Int.not_lt.mp hstatus, hfields⟩ (h c')

/-- **The tokens of a header.** `AnalyseHeader` ends, with at most one turn for each character. For a
text with an end of line the value is 0 when no line is refused, and then the tokens are the lines that
are not blank, those behind the first one with one blank behind the colon of a field; otherwise it is
the code of a line. -/
theorem analyseHeader_exact (text : Str) (c : σ) :
    (∃ out, ∀ fuel, text.length < fuel → handler.analyseHeader fuel text c = some out) ∧
    ('\n' ∈ text →
      (∀ c', handler.Accepts (headerLines text) c c' → ∀ fuel, text.length < fuel →
        handler.analyseHeader fuel text c = some (0, (headerLines text).head?.toList ++
          (headerLines text).tail.map spacedField, c')) ∧
      ((∀ c', ¬ handler.Accepts (headerLines text) c c') → ∃ ret tokens c', ret < 0 ∧
        ∀ fuel, text.length < fuel → handler.analyseHeader fuel text c = some (ret, tokens, c'))) := by
  refine ⟨?_, fun hin => ?_⟩
  · by_cases hin : '\n' ∈ text
    · exact ⟨_, fun fuel hfuel => by rw [handler.analyseHeader_eq hfuel, if_pos hin]⟩
    · exact ⟨_, fun fuel hfuel => by rw [handler.analyseHeader_eq hfuel, if_neg hin]⟩
  · obtain ⟨haccepted, hrefused⟩ :=
      handler.tokenLines_true (ConnectionToHTTP.lfLines [] (text.filter (· ≠ '\r'))) c
    constructor
    · intro c' h fuel hfuel
      rw [handler.analyseHeader_eq hfuel, if_pos hin, haccepted c' h]
      rfl
    · intro h
      exact ⟨_, _, _, hrefused h, fun fuel hfuel => by rw [handler.analyseHeader_eq hfuel, if_pos hin]⟩

end HTTPHandler

/-! ## The headers of a server -/

namespace ConnectionToHTTP

/-- The functions of `ConnectionToHTTP`. -/
def handler : HTTPHandler ConnectionToHTTP := ⟨analyseFirstHeaderLine, analyseHeaderLine⟩

theorem analyseFirstHeaderLine_tokens (line : Str) (c : ConnectionToHTTP) (tokens : List Str) :
    analyseFirstHeaderLine line { c with tokens } =
      ((analyseFirstHeaderLine line c).1, { (analyseFirstHeaderLine line c).2 with tokens }) := by
  unfold analyseFirstHeaderLine
  dsimp only
  split
  · rfl
  · split <;> rfl

theorem analyseHeaderLine_tokens (line : Str) (c : ConnectionToHTTP) (tokens : List Str) :
    analyseHeaderLine line { c with tokens } =
      ((analyseHeaderLine line c).1, { (analyseHeaderLine line c).2 with tokens }) := by
  unfold analyseHeaderLine
  dsimp only
  split_ifs <;> rfl

/-- The functions neither read nor set `tokens`. -/
theorem analyseToken_tokens (First : Bool) (line : Str) (c : ConnectionToHTTP) (tokens : List Str) :
    handler.analyseToken First line { c with tokens } =
      ((handler.analyseToken First line c).1, (handler.analyseToken First line c).2.1,
        { (handler.analyseToken First line c).2.2 with tokens }) := by
  unfold HTTPHandler.analyseToken
  cases First with
  | true => simp [handler, analyseFirstHeaderLine_tokens]
  | false =>
    cases hcolon : find [':'] line with
    | none => simp
    | some positiontmp =>
      cases hblanks : findFirstNotOf [' '] (line.drop (positiontmp + 1)) with
      | none => simp [hblanks]
      | some blanks => simp [hblanks, handler, analyseHeaderLine_tokens]

/-- A field is a token that is pushed, unless it is refused. -/
theorem analyseField_eq (line : Str) (c : ConnectionToHTTP) :
    analyseField line c =
      if (handler.analyseToken false line c).1 < 0 then
        ((handler.analyseToken false line c).1, (handler.analyseToken false line c).2.2)
      else (0, (handler.analyseToken false line c).2.2.push (handler.analyseToken false line c).2.1) := by
  unfold analyseField HTTPHandler.analyseToken
  cases hcolon : find [':'] line with
  | none => simp
  | some positiontmp =>
    cases hblanks : findFirstNotOf [' '] (line.drop (positiontmp + 1)) with
    | none => simp [hblanks]
    | some blanks => simp [hblanks, handler]

/-- `analyseLines` keeps the tokens of the loop among its members. -/
theorem analyseLines_eq (First : Bool) (lines tokens : List Str) (c : ConnectionToHTTP) :
    analyseLines First lines { c with tokens } =
      ((handler.tokenLines First lines tokens c).1,
        { (handler.tokenLines First lines tokens c).2.2 with
          tokens := (handler.tokenLines First lines tokens c).2.1 }) := by
  induction lines generalizing First tokens c with
  | nil => rfl
  | cons line lines ih =>
    rw [analyseLines, HTTPHandler.tokenLines]
    by_cases hblank : line.rdropWhile (· ∈ ['\t', ' ']) = []
    · rw [hblank, if_pos List.isEmpty_nil, if_pos rfl]
      exact ih First tokens c
    · rw [if_neg fun h => hblank (List.isEmpty_iff.mp h), if_neg hblank]
      generalize line.rdropWhile (· ∈ ['\t', ' ']) = token
      have hfield : (if First = true then
          if (analyseFirstHeaderLine token { c with tokens }).1 < 0 then
            analyseFirstHeaderLine token { c with tokens }
          else (0, (analyseFirstHeaderLine token { c with tokens }).2.push token)
          else analyseField token { c with tokens }) =
          if (handler.analyseToken First token c).1 < 0 then
            ((handler.analyseToken First token c).1, { (handler.analyseToken First token c).2.2 with tokens })
          else (0, { (handler.analyseToken First token c).2.2 with
            tokens := tokens ++ [(handler.analyseToken First token c).2.1] }) := by
        cases First with
        | true => simp [HTTPHandler.analyseToken, handler, analyseFirstHeaderLine_tokens, push]
        | false =>
          rw [if_neg Bool.false_ne_true, analyseField_eq, analyseToken_tokens]
          rfl
      dsimp only
      rw [hfield]
      by_cases hneg : (handler.analyseToken First token c).1 < 0
      · simp [hneg]
      · simp only [if_neg hneg, Int.lt_irrefl, if_false]
        exact ih false _ _

/-- `ConnectionToHTTP.analyseHeader` is `AnalyseHeader` with these functions. -/
theorem handler_analyseHeader {fuel : Nat} {linesT : Str} (hfuel : linesT.length < fuel)
    (c : ConnectionToHTTP) :
    (handler.analyseHeader fuel linesT c).map (fun out => (out.1, { out.2.2 with tokens := out.2.1 })) =
      some (c.analyseHeader linesT) := by
  have hmem : '\n' ∈ linesT.filter (· ≠ '\r') ↔ '\n' ∈ linesT := by simp
  rw [handler.analyseHeader_eq hfuel, analyseHeader]
  dsimp only
  by_cases hin : '\n' ∈ linesT
  · rw [if_pos hin, if_pos (hmem.mpr hin), analyseLines_eq]
    rfl
  · rw [if_neg hin, if_neg fun h => hin (hmem.mp h)]
    rfl

end ConnectionToHTTP

end Haarp
