import Haarp.Http.AnalyseHeader
import Haarp.Http.ReadHeader
import Haarp.Proxy.Release

/-!
# Errors of a header

`CommunicationHTTP` gives up when `ToServer.AnalyseHeader` returns a negative value, and the value is
that of `ConnectionToHTTP2::AnalyseHeader`, whose type is `bool`: the codes of `HTTPHandler` become 1.
`Exchange.communicateTested` is the call with the test in it, from the text of the header.

`communicateTested_eq`: the test changes nothing, so that the calls of `Exchange.communicate` are
those of the code. `analyseHeader_iff`: the headers for which `HTTPHandler` returns a code.
-/

namespace Haarp

/-- `ConnectionToHTTP2::AnalyseHeader`; the value is converted to `bool`. -/
def ConnectionToHTTP.analyseHeader2 (hit : Bool) (linesT : Str) (c : ConnectionToHTTP) :
    Bool × ConnectionToHTTP :=
  if hit then (true, c)
  else
    let (ret, c) := c.analyseHeader linesT
    (decide (ret ≠ 0), c)

/-- `ret`, and what is read of the header. The headers that `ReadHeader` makes are well formed. -/
def HeaderText.analyse (members : ConnectionToHTTP) (hit : Bool) : HeaderText → Int × Analysed
  | .server text =>
    let (nonzero, members) := members.analyseHeader2 hit text
    (if nonzero then 1 else 0, members.toAnalysed)
  | .hit => (1, members.toAnalysed)
  | .moved | .notModified => (0, members.toAnalysed)

section Call

variable (members : ConnectionToHTTP) (e : Exchange)

/-- From `IsItKeepAlive` to `PrepareHeaderForBrowser`. -/
def Exchange.behindTest (c : Connection) (p : Proxy) : Except (Int × Proxy) (Int × Proxy) :=
  let dropServer := p.DropServer || !c.isItKeepAlive
  let (contentLengthReference, c) := c.getContentLength e.db e.config
  let chunkedTransfer := c.isItChunked
  if contentLengthReference ≠ -1 ∧ chunkedTransfer then
    .error (-233, { p with ToServer := c, DropServer := true })
  else
    let c : Connection := if c.r.isMatch ∧ ¬ c.hit then { c with timerecord := e.clock 0 } else c
    .ok (contentLengthReference,
      { p with
        ToServer := c, DropServer := dropServer
        DropBrowser := p.DropBrowser || decide (contentLengthReference = -1) || chunkedTransfer })

/-- From `ReadHeader` on, with the test of `ret`. -/
def Exchange.respondTested (p : Proxy) : Option (Except (Int × Proxy) (Int × Proxy)) :=
  (p.ToServer.readHeader e.db e.read e.again).map fun (ok, header, c) =>
    if ¬ ok then .error (-80, { p with ToServer := c, DropServer := true })
    else
      let (ret, analysed) := header.analyse members c.hit
      let c := c.analyseHeader analysed header
      if ret < 0 then .error (ret, { p with ToServer := c, DropServer := true })
      else e.behindTest c p

/-- `CommunicationHTTP`, with the test of `ret`. -/
def Exchange.communicateTested (p : Proxy) : Option (Int × Proxy) :=
  Part.next (e.vet p) fun p =>
    Part.next ((e.lookUp p).map e.contact) fun p =>
      (e.respondTested members p).bind fun
        | .error out => some out
        | .ok (contentLengthReference, p) => e.deliver contentLengthReference p

end Call

variable {members : ConnectionToHTTP} {e : Exchange} {p : Proxy}

/-- No value is negative. -/
theorem HeaderText.analyse_nonneg (members : ConnectionToHTTP) (hit : Bool) (header : HeaderText) :
    0 ≤ (header.analyse members hit).1 := by
  cases header with
  | server text =>
    simp only [HeaderText.analyse]
    split
    · exact Int.one_nonneg
    · exact le_rfl
  | hit => exact Int.one_nonneg
  | moved => exact le_rfl
  | notModified => exact le_rfl

theorem respondTested_goes {ok : Bool} {header : HeaderText} {c : Connection}
    (hread : p.ToServer.readHeader e.db e.read e.again = some (ok, header, c)) (hok : ok = true) :
    e.respondTested members p =
      some (e.behindTest (c.analyseHeader (header.analyse members c.hit).2 header) p) := by
  simp only [Exchange.respondTested, hread, hok, Option.map_some, not_true_eq_false, if_false]
  rw [if_neg (Int.not_lt.mpr (HeaderText.analyse_nonneg members c.hit header))]

/-- The call without the test, for what `AnalyseHeader` reads of the header. -/
theorem communicateTested_eq
    (h : ∀ (p : Proxy) (ok : Bool) (text : Str) (c : Connection),
      p.ToServer.readHeader e.db e.read e.again = some (ok, .server text, c) →
        e.analysed = ((HeaderText.server text).analyse members c.hit).2) :
    e.communicateTested members p = e.communicate p := by
  have hrespond : ∀ p, e.respondTested members p = e.respond p := by
    intro p
    cases hread : p.ToServer.readHeader e.db e.read e.again with
    | none => simp only [Exchange.respondTested, Exchange.respond, hread, Option.map_none]
    | some read =>
      obtain ⟨ok, header, c⟩ := read
      cases ok with
      | false => simp [Exchange.respondTested, Exchange.respond, hread]
      | true =>
        rw [respondTested_goes hread rfl]
        have hanalysed : c.analyseHeader (header.analyse members c.hit).2 header =
            c.analyseHeader e.analysed header := by
          cases header with
          | server text => rw [← h p true text c hread]
          | hit => rfl
          | moved => rfl
          | notModified => rfl
        rw [hanalysed]
        simp only [Exchange.respond, hread, Option.map_some, not_true_eq_false, if_false]
        rfl
  refine congrArg (Part.next (e.vet p)) (funext fun p₁ => ?_)
  refine congrArg (Part.next ((e.lookUp p₁).map e.contact)) (funext fun p₂ => ?_)
  exact congrArg (Option.bind · _) (hrespond p₂)

/-! ## Which codes a call returns -/

theorem behindTest_error {c : Connection} {out : Int × Proxy} (h : e.behindTest c p = .error out) :
    out.1 = -233 := by
  unfold Exchange.behindTest at h
  dsimp only at h
  split at h
  · cases h
    rfl
  · cases h

theorem deliver_code {contentLengthReference answer : Int} {p' : Proxy}
    (h : e.deliver contentLengthReference p = some (answer, p')) :
    answer = 0 ∨ answer = -10 ∨ answer = -74 ∨ answer = -75 := by
  unfold Exchange.deliver at h
  dsimp only at h
  split at h
  · unfold Exchange.finish at h
    split at h
    · cases h
      exact .inr (.inl rfl)
    · cases h
      exact .inl rfl
  · obtain ⟨⟨answer', y⟩, hrelay, heq⟩ := Option.map_eq_some_iff.mp h
    cases heq
    cases relay_ends (J := fun _ _ => True) (fun _ _ _ _ _ _ _ _ => trivial) _ trivial hrelay with
    | failed answer negative => exact .inr negative
    | dropped dropBrowser => exact .inl rfl
    | done s k read toServer length dropServer dropBrowser => exact .inl rfl

/-- The codes of the header. -/
def HeaderCode (ret : Int) : Prop := ret = 0 ∨ ret = -201 ∨ ret = -230 ∨ ret = -232

theorem analyseFirstHeaderLine_code (token : Str) (c : ConnectionToHTTP) :
    HeaderCode (c.analyseFirstHeaderLine token).1 := by
  unfold ConnectionToHTTP.analyseFirstHeaderLine
  dsimp only
  split
  · exact .inr (.inr (.inl rfl))
  · split
    · exact .inr (.inr (.inl rfl))
    · exact .inl rfl

theorem analyseHeaderLine_code (token : Str) (c : ConnectionToHTTP) :
    HeaderCode (c.analyseHeaderLine token).1 := by
  unfold ConnectionToHTTP.analyseHeaderLine HeaderCode
  dsimp only
  repeat' split
  all_goals simp

theorem analyseField_code (token : Str) (c : ConnectionToHTTP) :
    HeaderCode (c.analyseField token).1 := by
  unfold ConnectionToHTTP.analyseField
  split
  · exact .inl rfl
  · dsimp only
    split
    · exact .inl rfl
    · split
      · exact analyseHeaderLine_code _ c
      · exact .inl rfl

theorem analyseLines_code (First : Bool) (lines : List Str) (c : ConnectionToHTTP) :
    HeaderCode (c.analyseLines First lines).1 := by
  induction lines generalizing First c with
  | nil => exact .inl rfl
  | cons line lines ih =>
    rw [ConnectionToHTTP.analyseLines]
    dsimp only
    split
    · exact ih First c
    · split
      · split
        · exact analyseFirstHeaderLine_code _ c
        · rw [if_neg (Int.lt_irrefl 0)]
          exact ih false _
      · split
        · exact analyseField_code _ c
        · exact ih false _

/-- What `AnalyseHeader` of `HTTPHandler` returns for the header of a server. -/
theorem analyseHeader_code (text : Str) (c : ConnectionToHTTP) :
    HeaderCode (c.analyseHeader text).1 := by
  unfold ConnectionToHTTP.analyseHeader
  dsimp only
  split
  · exact analyseLines_code true _ _
  · exact .inr (.inl rfl)

/-! ## Which headers have an error -/

/-- A status line with a number behind its first blank, which is not its first character. -/
def StatusLine (line : Str) : Prop :=
  find [' '] line ≠ some 0 ∧ ∃ d ∈ line.drop ((find [' '] line).elim 0 (· + 1)), d.isDigit = true

/-- The field `Name: value` that `AnalyseHeader` makes of a line. -/
def fieldToken (line : Str) : Option Str :=
  (find [':'] line).bind fun positiontmp =>
    (findFirstNotOf [' '] (line.drop (positiontmp + 1))).map fun blanks =>
      line.take (positiontmp + 1) ++ [' '] ++ (line.drop (positiontmp + 1)).drop blanks

/-- A field `Transfer-Encoding` with a value that does not begin with `chunked`. -/
def RefusedField (token : Str) : Prop :=
  ConnectionToHTTP.transferEncoding <+: UpperCase token ∧
    ¬ ConnectionToHTTP.transferEncoding ++ ConnectionToHTTP.chunked <+: UpperCase token ∧
    find ConnectionToHTTP.keepAlive ((UpperCase token).takeWhile (· ≠ '\x00')) = none

/-- The lines that are not blank, without the blanks at their ends. -/
def lineTokens (lines : List Str) : List Str :=
  (lines.map fun line => line.rdropWhile (· ∈ ['\t', ' '])).filter (· ≠ [])

/-- The lines of a header, up to the last end of one. -/
def headerLines (text : Str) : List Str :=
  lineTokens (ConnectionToHTTP.lfLines [] (text.filter (· ≠ '\r')))

/-- A header with an end of line, of which the first line is a status and no other one is refused. -/
def SoundHeader (text : Str) : Prop :=
  '\n' ∈ text ∧ (∀ line ∈ (headerLines text).head?, StatusLine line) ∧
    ∀ line ∈ (headerLines text).tail, ∀ token ∈ fieldToken line, ¬ RefusedField token

theorem analyseFirstHeaderLine_iff (line : Str) (c : ConnectionToHTTP) :
    (c.analyseFirstHeaderLine line).1 < 0 ↔ ¬ StatusLine line := by
  unfold ConnectionToHTTP.analyseFirstHeaderLine StatusLine
  dsimp only
  by_cases hspace : find [' '] line = some 0
  · simp [hspace]
  · rw [if_neg hspace]
    generalize line.drop ((find [' '] line).elim 0 (· + 1)) = behind
    have hdigits : ((behind.dropWhile fun d => !d.isDigit).take 3).isEmpty = true ↔
        ¬ ∃ d ∈ behind, d.isDigit = true := by
      simp [List.isEmpty_iff]
    by_cases hany : ∃ d ∈ behind, d.isDigit = true
    · rw [if_neg (fun h => hdigits.mp h hany)]
      simp [hspace, hany]
    · rw [if_pos (hdigits.mpr hany)]
      simp [hany]

theorem analyseHeaderLine_iff (token : Str) (c : ConnectionToHTTP) :
    (c.analyseHeaderLine token).1 < 0 ↔ RefusedField token := by
  unfold ConnectionToHTTP.analyseHeaderLine RefusedField
  dsimp only
  by_cases hleads : ConnectionToHTTP.transferEncoding <+: UpperCase token
  · have hlen : token.length > 16 := by
      have h := hleads.length_le
      rw [UpperCase, List.length_map] at h
      exact Nat.lt_of_lt_of_le (by decide) h
    have hfirst : ∀ w : Str, w.head? = some 'C' → ¬ w <+: UpperCase token := by
      intro w hw h
      obtain ⟨rest, hrest⟩ := hleads
      obtain ⟨rest', hrest'⟩ := h
      have hhead := congrArg List.head? (hrest.trans hrest'.symm)
      rw [List.head?_append, List.head?_append, hw] at hhead
      exact absurd (show some 'T' = some 'C' from hhead) (by decide)
    rw [if_pos hlen, if_neg (hfirst _ rfl), if_neg (hfirst _ rfl)]
    generalize find ConnectionToHTTP.keepAlive _ = found
    cases found with
    | some position => simp
    | none =>
      by_cases hchunked :
          ConnectionToHTTP.transferEncoding ++ ConnectionToHTTP.chunked <+: UpperCase token
      · simp [hchunked]
      · simp [hchunked, hleads]
  · rw [if_neg hleads]
    simp only [hleads, false_and, iff_false, Int.not_lt]
    repeat' split
    all_goals exact le_rfl

theorem analyseField_iff (line : Str) (c : ConnectionToHTTP) :
    (c.analyseField line).1 < 0 ↔ ∃ token ∈ fieldToken line, RefusedField token := by
  unfold ConnectionToHTTP.analyseField fieldToken
  cases hcolon : find [':'] line with
  | none => simp
  | some positiontmp =>
    dsimp only [Option.bind_some]
    cases hvalue : findFirstNotOf [' '] (line.drop (positiontmp + 1)) with
    | none => simp
    | some blanks =>
      simp only [Option.map_some, Option.mem_some_iff, exists_eq_left', ← analyseHeaderLine_iff _ c]
      split
      · next hneg => exact ⟨fun _ => hneg, fun _ => hneg⟩
      · next hneg => exact ⟨fun h => absurd h (Int.lt_irrefl 0), fun h => absurd h hneg⟩

theorem lineTokens_cons (line : Str) (lines : List Str) :
    lineTokens (line :: lines) =
      if line.rdropWhile (· ∈ ['\t', ' ']) = [] then lineTokens lines
      else line.rdropWhile (· ∈ ['\t', ' ']) :: lineTokens lines := by
  unfold lineTokens
  rw [List.map_cons]
  generalize line.rdropWhile (· ∈ ['\t', ' ']) = token
  cases token with
  | nil => rfl
  | cons d token => rfl

/-- The first line that is not blank is the status, unless it was there before. -/
theorem analyseLines_iff (First : Bool) (lines : List Str) (c : ConnectionToHTTP) :
    (c.analyseLines First lines).1 < 0 ↔
      (First = true ∧ ∃ line ∈ (lineTokens lines).head?, ¬ StatusLine line) ∨
        ∃ line ∈ (if First then (lineTokens lines).tail else lineTokens lines),
          ∃ token ∈ fieldToken line, RefusedField token := by
  induction lines generalizing First c with
  | nil => cases First <;> simp [ConnectionToHTTP.analyseLines, lineTokens]
  | cons line lines ih =>
    rw [ConnectionToHTTP.analyseLines, lineTokens_cons]
    dsimp only
    by_cases hnil : line.rdropWhile (· ∈ ['\t', ' ']) = []
    · rw [hnil, if_pos List.isEmpty_nil, ih, if_pos rfl]
    · rw [if_neg (fun h => hnil (List.isEmpty_iff.mp h)), if_neg hnil]
      cases First with
      | true =>
        simp only [if_true, List.head?_cons, List.tail_cons, Option.mem_some_iff, exists_eq_left',
          true_and, ← analyseFirstHeaderLine_iff _ c]
        split
        · next hneg => exact ⟨fun _ => .inl hneg, fun _ => hneg⟩
        · next hneg =>
          rw [if_neg (Int.lt_irrefl 0), ih]
          simp only [hneg, Bool.false_eq_true, if_false, false_and, false_or]
      | false =>
        simp only [Bool.false_eq_true, if_false, false_and, false_or, List.mem_cons, exists_eq_or_imp,
          ← analyseField_iff _ c]
        split
        · next hneg => exact ⟨fun _ => .inl hneg, fun _ => hneg⟩
        · next hneg =>
          rw [ih]
          simp only [hneg, Bool.false_eq_true, if_false, false_and, false_or, ← analyseField_iff _ c]

/-- **The headers with an error.** -/
theorem analyseHeader_iff (text : Str) (c : ConnectionToHTTP) :
    (c.analyseHeader text).1 < 0 ↔ ¬ SoundHeader text := by
  unfold ConnectionToHTTP.analyseHeader SoundHeader
  dsimp only
  have hend : '\n' ∈ text.filter (· ≠ '\r') ↔ '\n' ∈ text := by simp
  by_cases htext : '\n' ∈ text
  · rw [if_pos (hend.mpr htext), analyseLines_iff]
    simp only [true_and, if_true, htext, headerLines, not_and_or, not_forall, not_not, exists_prop]
  · rw [if_neg (fun h => htext (hend.mp h))]
    simp [htext]

/-! ## What becomes of an error -/

section Reported

variable {p₁ p₂ p₃ : Proxy} {text : Str} {c : Connection}

/-- The call in the state `p` returns the code of a header with an error, drops the server and relays
nothing, and it goes on behind a header without one. `p₃` is the state in which the header is read,
and `c` what `ReadHeader` leaves. -/
def Exchange.Reports (members : ConnectionToHTTP) (e : Exchange) (p p₃ : Proxy) (text : Str)
    (c : Connection) : Prop :=
  ((members.analyseHeader text).1 < 0 →
    ∃ p', e.communicateTested members p = some ((members.analyseHeader text).1, p') ∧
      p'.DropServer = true ∧ ∀ out, e.respondTested members p₃ ≠ some (.ok out)) ∧
  ((members.analyseHeader text).1 = 0 → e.respondTested members p₃ = some (e.behindTest
    (c.analyseHeader (members.analyseHeader text).2.toAnalysed (.server text)) p₃))

/-- The header is read, and the call goes on. -/
theorem respondTested_server
    (hread : p₃.ToServer.readHeader e.db e.read e.again = some (true, .server text, c))
    (hhit : c.hit = false) :
    e.respondTested members p₃ = some (e.behindTest
      (c.analyseHeader (members.analyseHeader text).2.toAnalysed (.server text)) p₃) := by
  rw [respondTested_goes hread rfl, hhit]
  rfl

/-- **Errors of a header are not reported**: the calls that do what is said are those for a header
without an error. -/
theorem header_reported (hvet : e.vet p = some (.goesOn p₁)) (hlookUp : e.lookUp p₁ = some p₂)
    (hcontact : e.contact p₂ = .goesOn p₃)
    (hread : p₃.ToServer.readHeader e.db e.read e.again = some (true, .server text, c))
    (hhit : c.hit = false) :
    e.Reports members p p₃ text c ↔ SoundHeader text := by
  rw [← not_not (a := SoundHeader text), ← analyseHeader_iff text members]
  have hgoes := @respondTested_server members e _ _ _ hread hhit
  constructor
  · rintro ⟨hreport, -⟩ hneg
    obtain ⟨p', hcall, -, hout⟩ := hreport hneg
    have hcode := analyseHeader_code text members
    generalize (members.analyseHeader text).1 = ret at hneg hcall hcode
    simp only [Exchange.communicateTested, Part.next, hvet, hlookUp, hcontact, Option.map_some,
      Option.bind_some, hgoes] at hcall
    split at hcall
    · next out hbehind =>
      cases hcall
      have hcodes := behindTest_error hbehind
      unfold HeaderCode at hcode
      dsimp only at hcodes
      omega
    · next contentLengthReference p₄ hbehind =>
      have hcodes := deliver_code hcall
      unfold HeaderCode at hcode
      omega
  · intro hnonneg
    exact ⟨fun hneg => absurd hneg hnonneg, fun _ => hgoes⟩

/-- A request that is not cached, for which the server answers with the text. -/
def textExchange (text : Str) : Exchange :=
  { twoBytesExchange with
    asked := { plugin := none, found := none, directories := [], selected := none }
    read := (true, text) }

/-- The members that `ClearVars` leaves. -/
def clearedMembers : ConnectionToHTTP := ⟨⟨0, -1, false, false⟩, false, []⟩

/-- `HTTP 200`, as `ReadHeader` hands it over. -/
theorem header_reported_ok :
    ∃ p₃ c, (textExchange (['H', 'T', 'T', 'P', ' ', '2', '0', '0'] ++ crlf)).Reports clearedMembers
      Proxy.new p₃ (['H', 'T', 'T', 'P', ' ', '2', '0', '0'] ++ crlf) c :=
  ⟨_, _, (header_reported rfl rfl rfl rfl rfl).mpr
    (not_not.mp (mt (analyseHeader_iff _ clearedMembers).mpr (by decide)))⟩

/-- A status line without a number, which `ReadHeader` hands over: its code is -230, and the call
returns 0. -/
theorem header_unreported :
    (SocketHandler.readHeader 2
        ⟨[], [⟨['H', 'T', 'T', 'P'] ++ crlf ++ crlf, by decide⟩], false⟩).map
        (fun read => (read.1, read.2.1)) = some (true, ['H', 'T', 'T', 'P'] ++ crlf) ∧
      (clearedMembers.analyseHeader (['H', 'T', 'T', 'P'] ++ crlf)).1 = -230 ∧
      ((textExchange (['H', 'T', 'T', 'P'] ++ crlf)).communicateTested clearedMembers
        Proxy.new).map (·.1) = some 0 := by
  decide +kernel

end Reported

end Haarp
