import Haarp.Cache.Fetching
import Haarp.Proxy.Anchored
import Haarp.Proxy.PassThrough

/-!
# The server connection that is kept

`CommunicationHTTP` keeps the server connection for the next request when the header of the response
allows it, whoever has delivered the body: a hit that is found behind the header, and a miss that is
turned into a hit, take the rest of the body from the cache and leave the server's on the wire.

`Exchange.reads` is what a call reads of a response. `connection_clean_iff`: when a connection that is
kept has read one header and its whole body.
-/

namespace Haarp

open Base

/-! ## What a call reads -/

/-- How many headers `ReadHeader` reads from the server: none where it makes its own, and a second one
when the first cannot be read. -/
def Connection.headersRead (db : Db) (read : Bool × Str) (c : Connection) : Option Nat :=
  if c.size_orig_file = 0 ∧ c.r.isMatch ∧ ¬ c.hit then
    (c.readUnknown db read).map fun (stop, c) =>
      if stop ∨ c.rewrited ∨ c.hit ∨ read.1 then 1 else 2
  else if c.rewrited ∨ c.hit then some 0
  else some 1

/-- What is left on the wire when the body is delivered. -/
def Exchange.unread (e : Exchange) (contentLengthReference : Int) (p : Proxy) :
    Option (List (Option Str)) :=
  let (response, c) := p.ToServer.getResponse e.db
  let p := { p with ToServer := c }
  if e.noBody contentLengthReference response then some e.recv
  else (e.relayBody contentLengthReference p).map fun (_, y) => y.ToServer.recv

/-- The headers that a call reads, and what it leaves of the body. -/
def Exchange.reads (e : Exchange) (p : Proxy) : Option (Nat × List (Option Str)) :=
  (e.admitted p).bind fun p =>
    (((e.lookUp p).map e.contact).bind Part.goes).bind fun p =>
      (p.ToServer.headersRead e.db e.read).bind fun headers =>
        ((e.respond p).bind Except.toOption).bind fun (contentLengthReference, p) =>
          (e.unread contentLengthReference p).map fun left => (headers, left)

/-- The request is sent to the server. -/
def Exchange.AsksServer (e : Exchange) (p : Proxy) : Prop :=
  ∀ admitted ∈ e.admitted p, ∀ p₂ ∈ e.lookUp admitted,
    p₂.ToServer.hit = false ∧ p₂.ToServer.rewrited = false

/-- The connection has `P` when the body is to be read. -/
def Exchange.Meets (e : Exchange) (p : Proxy) (P : Connection → Prop) : Prop :=
  ∀ admitted ∈ e.admitted p, ∀ out ∈ e.responded admitted, P (out.2.ToServer.getResponse e.db).2

/-- The response has no body. -/
def Exchange.Bodyless (e : Exchange) : Prop :=
  e.requestType = .head ∨ e.analysed.HTMLResponse = 204 ∨ e.analysed.HTMLResponse = 304

/-- The server answers with a header and a body of the length that the header announces, in `pieces`;
the header of a page that is rewritten on its way announces the new length. -/
structure Exchange.WellFramed (e : Exchange) (p : Proxy) (pieces : List Str) : Prop where
  read : e.read.1 = true
  keepAlive : e.analysed.IsKeepAlive = true
  chunked : e.analysed.IsChunked = false
  recv : e.recv = pieces.map some
  filled : ∀ d ∈ pieces, d ≠ []
  announced : 0 ≤ e.analysed.ContentLength
  bodyless : e.Bodyless → pieces = []
  length : ¬ e.Bodyless → (pieces.flatten.length : Int) = e.analysed.ContentLength ∨
    e.Meets p fun c => tracked c.r.domain = true

/-- Both connections stay open. -/
def Proxy.Kept (p : Proxy) : Prop :=
  p.ServerConnected = true ∧ p.DropServer = false ∧ p.DropBrowser = false ∧ p.BrowserDropped = false

/-- The length of the first `n` pieces, as they are rewritten. -/
def Exchange.rewritten (e : Exchange) (pieces : List Str) (n : Nat) : Int :=
  ((pieces.mapIdx fun i d => (e.track (i + 1) d).1).take n).sum

/-- The connection takes the whole body: a hit when there is none, a page that is rewritten when no
part of it comes to the announced length, and a miss when none of its pieces but the last ends in the
stored blocks at the end of the plan. -/
def Connection.TakesAll (e : Exchange) (pieces : List Str) (c : Connection) : Prop :=
  if c.hit then pieces = []
  else if tracked c.r.domain then ∀ n < pieces.length, e.rewritten pieces n ≠ e.analysed.ContentLength
  else c.r.isMatch = true → ∀ n < pieces.length, 0 < n →
    NeedsServer c.lrangeswork (c.range_min + (pieces.take n).flatten.length)

instance (e : Exchange) (pieces : List Str) (c : Connection) : Decidable (c.TakesAll e pieces) :=
  inferInstanceAs (Decidable (if c.hit then pieces = [] else if tracked c.r.domain then
    ∀ n < pieces.length, e.rewritten pieces n ≠ _ else _ → ∀ n < pieces.length, 0 < n →
      NeedsServer _ _))

/-! ## The mode of the connection -/

section Mode

variable {db : Db} {c c' : Connection}

theorem fileMissing_mode (db : Db) (disco_con_espacio : Bool) (c : Connection) :
    (c.fileMissing db disco_con_espacio).miss2hit = c.miss2hit := by
  have hreset : ∀ c : Connection, (c.resetRow db).miss2hit = c.miss2hit := by
    intro c
    unfold Connection.resetRow
    dsimp only
    split_ifs <;> rfl
  unfold Connection.fileMissing
  dsimp only
  split
  · rw [hreset]
    split <;> rfl
  · split <;> rfl

theorem planStored_mode (h : c.planStored = some c') : c'.miss2hit = c.miss2hit := by
  unfold Connection.planStored at h
  split at h
  · obtain ⟨c₁, htop, hplan⟩ := Option.bind_eq_some_iff.mp h
    obtain ⟨filesizeneto, -, rfl⟩ := Option.map_eq_some_iff.mp hplan
    have hchange : c.changeTop.miss2hit = c.miss2hit := by
      unfold Connection.changeTop
      split <;> rfl
    obtain ⟨least, -, htop⟩ := Option.bind_eq_some_iff.mp htop
    split at htop
    · obtain ⟨top, -, rfl⟩ := Option.map_eq_some_iff.mp htop
      split <;> exact hchange
    · cases htop
      exact hchange
  · cases h
    unfold Connection.sizeUnknown
    split <;> rfl

theorem fileFound_mode {selected : Option (Option SelectedRow)}
    (h : c.fileFound db selected = some c') : c'.miss2hit = c.miss2hit := by
  unfold Connection.fileFound at h
  dsimp only at h
  split at h
  · cases h
    exact liberateEdition_miss2hit db _
  · cases h
    exact liberateEdition_miss2hit db _
  · unfold Connection.fileStored at h
    dsimp only at h
    split at h
    · cases h
      exact liberateEdition_miss2hit db _
    · obtain ⟨c₁, hplanned, rfl⟩ := Option.map_eq_some_iff.mp h
      have hlearned : ∀ c : Connection, (c.learnSize db).miss2hit = c.miss2hit := by
        intro c
        unfold Connection.learnSize
        split <;> rfl
      have hloaded : ∀ (row : SelectedRow) (c : Connection),
          (c.loadRanges db row).miss2hit = c.miss2hit := by
        intro row c
        unfold Connection.loadRanges
        split <;> rfl
      have hsame := planStored_mode hplanned
      rw [hloaded, hlearned] at hsame
      split <;> exact hsame

/-- `Cache` forgets that a miss was turned. -/
theorem cache_mode {asked : Asked} (h : c.cache db asked = some c') : c'.miss2hit = false := by
  have hask : (c.ask asked).miss2hit = false := by
    unfold Connection.ask
    dsimp only
    split <;> rfl
  cases cache_cases h with
  | unasked unmatched result =>
    rw [result]
    exact hask
  | refused matched locked notTaken result =>
    obtain ⟨r', log, operation, rfl⟩ := lockFile_eq locked
    rw [result]
    exact hask
  | used matched locked taken uses =>
    obtain ⟨r', log, operation, rfl⟩ := lockFile_eq locked
    unfold Connection.useEntry at uses
    dsimp only at uses
    split at uses
    · cases uses
      exact hask
    · obtain ⟨c₁, hsized, uses⟩ := Option.bind_eq_some_iff.mp uses
      have h₁ : c₁.miss2hit = false := by
        split at hsized
        · obtain ⟨filesizeneto, -, rfl⟩ := Option.map_eq_some_iff.mp hsized
          exact hask
        · cases hsized
          exact hask
      split at uses
      · cases uses
        exact h₁
      · split at uses
        · cases uses
          exact (fileMissing_mode db _ c₁).trans h₁
        · exact (fileFound_mode uses).trans h₁

/-! ## The header -/

/-- A header is made for a hit only. -/
theorem makeHeader_text {result : Option Str} {again : Bool × Str} {ok : Bool} {out : HeaderText}
    (hrewrited : c.rewrited = false) (h : c.makeHeader db result again = some (ok, out, c')) :
    out = .notModified ∨ c'.hit = true ∨ ∃ text, out = .server text := by
  unfold Connection.makeHeader at h
  rw [if_neg (by simp [hrewrited])] at h
  split_ifs at h with hetag hhit
  · cases h
    exact .inl rfl
  · cases h
    exact .inr (.inl hhit)
  · split at h
    · cases h
      exact .inr (.inr ⟨_, rfl⟩)
    · obtain ⟨c₁, -, heq⟩ := Option.map_eq_some_iff.mp h
      cases heq
      exact .inr (.inr ⟨_, rfl⟩)

/-- A request that is sent reads one header. -/
theorem readHeader_once {read again : Bool × Str} {ok : Bool} {out : HeaderText}
    (hhit : c.hit = false) (hrewrited : c.rewrited = false) (hread : read.1 = true)
    (h : c.readHeader db read again = some (ok, out, c')) :
    c.headersRead db read = some 1 ∧
      (out = .notModified ∨ c'.hit = true ∨ ∃ text, out = .server text) := by
  unfold Connection.readHeader at h
  unfold Connection.headersRead
  split at h
  · next hunknown =>
    rw [if_pos hunknown]
    obtain ⟨⟨stop, c₁⟩, hsized, h⟩ := Option.bind_eq_some_iff.mp h
    have hmode := readUnknown_mode hsized
    refine ⟨?_, ?_⟩
    · rw [hsized, Option.map_some]
      simp [hread]
    · dsimp only at h
      split at h
      · cases h
        exact .inr (.inr ⟨_, rfl⟩)
      · exact makeHeader_text (hmode.rewrited.trans hrewrited) h
  · next hknown =>
    rw [if_neg hknown, if_neg (by simp [hhit, hrewrited])]
    exact ⟨rfl, makeHeader_text hrewrited h⟩

variable {e : Exchange} {p p' : Proxy} {pieces : List Str}

theorem getContentLength_fields (db : Db) (config : Str → Int) (c : Connection) :
    (c.getContentLength db config).2.rewrited = c.rewrited ∧
      (c.getContentLength db config).2.miss2hit = c.miss2hit ∧
      (c.getContentLength db config).2.hit = c.hit ∧
      (c.getContentLength db config).2.HTMLResponse = c.HTMLResponse ∧
      (c.hit = false → (c.getContentLength db config).1 = c.ContentLength) := by
  unfold Connection.getContentLength
  split
  · next hhit =>
    refine ⟨rfl, rfl, rfl, rfl, fun hmiss => ?_⟩
    rw [hmiss] at hhit
    cases hhit
  · split
    · exact ⟨rfl, liberateEdition_miss2hit db _, liberateEdition_hit db _, rfl, fun _ => rfl⟩
    · exact ⟨rfl, rfl, rfl, rfl, fun _ => rfl⟩

/-- Behind a header that keeps the server connection, the body is that of a hit, or it has the length
that the header announces. -/
theorem analyseHeader_once {config : Str → Int} {analysed : Analysed} {header : HeaderText}
    (htext : header = .notModified ∨ c.hit = true ∨ ∃ text, header = .server text)
    (hmode : c.rewrited = false ∧ c.miss2hit = false ∨ header = .notModified ∧ c.hit = false)
    (hkeeps : (c.analyseHeader analysed header).isItKeepAlive = true) :
    ((c.analyseHeader analysed header).getContentLength db config).2.rewrited = false ∧
      ((c.analyseHeader analysed header).getContentLength db config).2.miss2hit = false ∧
      (((c.analyseHeader analysed header).getContentLength db config).2.hit = true ∨
        (((c.analyseHeader analysed header).getContentLength db config).2.hit = false ∧
          ((c.analyseHeader analysed header).getContentLength db config).1 = analysed.ContentLength ∧
          ((c.analyseHeader analysed header).getContentLength db config).2.HTMLResponse =
            analysed.HTMLResponse)) := by
  have hanalysed : (c.analyseHeader analysed header).rewrited = c.rewrited ∧
      (c.analyseHeader analysed header).miss2hit = c.miss2hit ∧
      (c.analyseHeader analysed header).hit = c.hit := by
    unfold Connection.analyseHeader
    split <;> exact ⟨rfl, rfl, rfl⟩
  obtain ⟨hrew, hturn, hhit, hresponse, hlength⟩ :=
    getContentLength_fields db config (c.analyseHeader analysed header)
  have hclosed : ¬ (header = .notModified ∧ c.hit = false) := by
    rintro ⟨rfl, hc⟩
    rw [Connection.isItKeepAlive, hanalysed.2.2, hc] at hkeeps
    cases hkeeps
  obtain ⟨hrew', hturn'⟩ := hmode.resolve_right hclosed
  rw [hrew, hturn, hhit, hresponse, hanalysed.1, hanalysed.2.1, hanalysed.2.2]
  refine ⟨hrew', hturn', ?_⟩
  cases hc : c.hit with
  | true => exact .inl rfl
  | false =>
    rw [hlength (hanalysed.2.2.trans hc)]
    rcases htext with rfl | htrue | ⟨text, rfl⟩
    · exact absurd ⟨rfl, hc⟩ hclosed
    · rw [hc] at htrue
      cases htrue
    · exact .inr ⟨rfl, rfl, rfl⟩

theorem respond_once {contentLengthReference : Int} (hhit : p.ToServer.hit = false)
    (hrewrited : p.ToServer.rewrited = false) (hmiss : p.ToServer.miss2hit = false)
    (hread : e.read.1 = true) (h : e.respond p = some (.ok (contentLengthReference, p')))
    (hkept : p'.DropServer = false) :
    p.ToServer.headersRead e.db e.read = some 1 ∧ p'.ToServer.rewrited = false ∧
      p'.ToServer.miss2hit = false ∧ (p'.ToServer.hit = true ∨
        (p'.ToServer.hit = false ∧ contentLengthReference = e.analysed.ContentLength ∧
          p'.ToServer.HTMLResponse = e.analysed.HTMLResponse)) := by
  obtain ⟨⟨ok, header, c⟩, hheader, hok⟩ := Option.map_eq_some_iff.mp h
  obtain ⟨honce, htext⟩ := readHeader_once hhit hrewrited hread hheader
  refine ⟨honce, ?_⟩
  have hmode : c.rewrited = false ∧ c.miss2hit = false ∨ header = .notModified ∧ c.hit = false := by
    rcases readHeader_mode hheader with hsame | ⟨hout, hclosed, -⟩
    · exact .inl ⟨hsame.rewrited.trans hrewrited, hsame.miss2hit.trans hmiss⟩
    · exact .inr ⟨hout, hclosed⟩
  dsimp only at hok
  split at hok
  · cases hok
  · split at hok
    · cases hok
    · cases hok
      have hkeeps : (c.analyseHeader e.analysed header).isItKeepAlive = true := by
        simp only [Bool.or_eq_false_iff, Bool.not_eq_false'] at hkept
        exact hkept.2
      have honce := @analyseHeader_once e.db c e.config _ _ htext hmode hkeeps
      dsimp only
      split <;> exact honce

end Mode

/-! ## The body -/

section Body

variable {e : Exchange} {pieces : List Str} {w w' : Wire} {n : Int} {b : Str}

theorem collect_fields {c c' : Connection} {bodyT : Str} (h : e.collect c bodyT = some c') :
    c'.r = c.r ∧ c'.hit = c.hit ∧ c'.miss2hit = c.miss2hit ∧ c'.rewrited = c.rewrited := by
  have hname : ∀ (c : Connection) (name : Str) (found : Option Str),
      (e.writeName name found c).2.r = c.r ∧ (e.writeName name found c).2.hit = c.hit ∧
        (e.writeName name found c).2.miss2hit = c.miss2hit ∧
        (e.writeName name found c).2.rewrited = c.rewrited := by
    intro c name found
    unfold Exchange.writeName
    split <;> exact ⟨rfl, rfl, rfl, rfl⟩
  have hidentify : ∀ (c : Connection) (first second : Str),
      (e.identify c first second).r = c.r ∧ (e.identify c first second).hit = c.hit ∧
        (e.identify c first second).miss2hit = c.miss2hit ∧
        (e.identify c first second).rewrited = c.rewrited := by
    intro c first second
    unfold Exchange.identify
    dsimp only
    split
    · exact ⟨rfl, rfl, rfl, rfl⟩
    · split
      · exact ⟨rfl, rfl, rfl, rfl⟩
      · split
        · exact hname _ _ _
        · exact hname _ _ _
  unfold Exchange.collect at h
  dsimp only at h
  split at h
  · split at h <;> cases h
    · exact ⟨rfl, rfl, rfl, rfl⟩
    · exact hidentify _ _ _
  · cases h
    exact ⟨rfl, rfl, rfl, rfl⟩

/-- The first `n` pieces are read. -/
def Wire.Has (w : Wire) (pieces : List Str) (n : Nat) : Prop :=
  n ≤ pieces.length ∧ w.recv = (pieces.drop n).map some

theorem Wire.Has.start {pieces : List Str} (h : w.recv = pieces.map some) : w.Has pieces 0 :=
  ⟨Nat.zero_le _, h⟩

theorem Wire.Has.left_eq_nil {n : Nat} (h : w.Has pieces n) : w.recv = [] ↔ n = pieces.length := by
  rw [h.2, List.map_eq_nil_iff, List.drop_eq_nil_iff]
  exact ⟨fun hle => Nat.le_antisymm h.1 hle, fun heq => heq.ge⟩

/-- The next piece, and what is left behind it. -/
theorem Wire.Has.next {n : Nat} (h : w.Has pieces n) (hlt : n < pieces.length) :
    w.recv.headD (some []) = some pieces[n] ∧ w.recv.tail = (pieces.drop (n + 1)).map some := by
  rw [h.2, List.drop_eq_getElem_cons hlt]
  exact ⟨rfl, rfl⟩

/-- Behind the last piece nothing is read. -/
theorem Wire.Has.none {n : Nat} (h : w.Has pieces n) (hlt : ¬ n < pieces.length) :
    w.recv.headD (some []) = some [] ∧ w.recv.tail = [] := by
  have hnil := h.left_eq_nil.mpr (Nat.le_antisymm h.1 (Nat.not_lt.mp hlt))
  rw [hnil]
  exact ⟨rfl, rfl⟩

theorem length_take_succ {n : Nat} (hlt : n < pieces.length) :
    ((pieces.take (n + 1)).flatten.length : Int) = (pieces.take n).flatten.length + pieces[n].length := by
  rw [List.take_succ_eq_append_getElem hlt, List.flatten_append, List.length_append]
  simp

/-- All bytes are taken with the last piece. -/
theorem length_take_eq (hfilled : ∀ d ∈ pieces, d ≠ []) {n : Nat} (hle : n ≤ pieces.length)
    (h : (pieces.take n).flatten.length = pieces.flatten.length) : n = pieces.length := by
  by_contra hne
  have hlt : n < pieces.length := Nat.lt_of_le_of_ne hle hne
  have hsplit : (pieces.take n).flatten ++ (pieces.drop n).flatten = pieces.flatten := by
    rw [← List.flatten_append, List.take_append_drop]
  have hlength := congrArg List.length hsplit
  rw [List.length_append, h, List.drop_eq_getElem_cons hlt, List.flatten_cons, List.length_append] at hlength
  have := List.length_pos_iff.mpr (hfilled _ (List.getElem_mem hlt))
  omega

/-- A body that the server delivers. -/
structure Wire.Misses (w : Wire) : Prop where
  rewrited : w.ToServer.rewrited = false
  hit : w.ToServer.hit = false
  miss2hit : w.ToServer.miss2hit = false

/-- A hit does not read the server. -/
theorem readBodyPart_hit (hrewrited : w.ToServer.rewrited = false)
    (hhit : w.ToServer.hit = true ∨ w.ToServer.miss2hit = true)
    (h : e.readBodyPart w = some (n, b, w')) :
    w'.recv = w.recv ∧ w'.ToServer.rewrited = false ∧
      ∃ part, readHit e.db (e.clock (w.calls + 1)) w.ToServer.toTransfer w.file = some part ∧
        n = part.BodyLength ∧ w'.ToServer.toTransfer = part.t := by
  unfold Exchange.readBodyPart at h
  dsimp only at h
  rw [if_neg (by simp [hrewrited]), if_pos hhit] at h
  obtain ⟨part, hpart, heq⟩ := Option.map_eq_some_iff.mp h
  cases heq
  exact ⟨rfl, hrewrited, part, hpart, rfl, rfl⟩

/-- A page that is rewritten. -/
theorem readBodyPart_tracked {d : Str} (hmisses : w.Misses) (htracked : tracked w.ToServer.r.domain = true)
    (hd : w.recv.headD (some []) = some d) (h : e.readBodyPart w = some (n, b, w')) :
    n = (e.track (w.calls + 1) d).1 ∧
      w' = { w with recv := w.recv.tail, calls := w.calls + 1 } := by
  unfold Exchange.readBodyPart at h
  dsimp only at h
  rw [if_neg (by simp [hmisses.rewrited]), if_neg (by simp [hmisses.hit, hmisses.miss2hit]),
    if_pos htracked, hd] at h
  cases h
  exact ⟨rfl, rfl⟩

/-- A response that is passed on. -/
theorem readBodyPart_passed {d : Str} (hmisses : w.Misses) (htracked : ¬ tracked w.ToServer.r.domain = true)
    (hmatch : w.ToServer.r.isMatch = false) (hd : w.recv.headD (some []) = some d)
    (h : e.readBodyPart w = some (n, b, w')) :
    n = d.length ∧ w'.recv = w.recv.tail ∧ w'.Misses ∧ w'.ToServer.r = w.ToServer.r := by
  unfold Exchange.readBodyPart at h
  dsimp only at h
  rw [if_neg (by simp [hmisses.rewrited]), if_neg (by simp [hmisses.hit, hmisses.miss2hit]),
    if_neg htracked, hd] at h
  split at h
  · obtain ⟨c, hcollect, heq⟩ := Option.map_eq_some_iff.mp h
    cases heq
    obtain ⟨hr, hhit, hmiss, hrewrited⟩ := collect_fields hcollect
    exact ⟨rfl, rfl, ⟨hrewrited.trans hmisses.rewrited, hhit.trans hmisses.hit,
      hmiss.trans hmisses.miss2hit⟩, hr⟩
  · rw [if_neg (by simp [hmatch])] at h
    cases h
    exact ⟨rfl, rfl, ⟨hmisses.rewrited, hmisses.hit, hmisses.miss2hit⟩, rfl⟩

/-- A response that is stored. -/
theorem readBodyPart_stored {d : Str} (hmisses : w.Misses) (htracked : ¬ tracked w.ToServer.r.domain = true)
    (hmatch : w.ToServer.r.isMatch = true) (hd : w.recv.headD (some []) = some d)
    (h : e.readBodyPart w = some (n, b, w')) :
    w'.recv = w.recv.tail ∧ w'.ToServer.rewrited = false ∧
      ∃ part, readMiss e.db (e.clock (w.calls + 1)) w.ToServer.toTransfer w.file (some d) = some part ∧
        n = part.BodyLength ∧ w'.ToServer.toTransfer = part.t := by
  unfold Exchange.readBodyPart at h
  dsimp only at h
  rw [if_neg (by simp [hmisses.rewrited]), if_neg (by simp [hmisses.hit, hmisses.miss2hit]),
    if_neg htracked, if_neg (by simp [hmatch]), if_pos hmatch, hd] at h
  obtain ⟨part, hpart, heq⟩ := Option.map_eq_some_iff.mp h
  cases heq
  exact ⟨rfl, hmisses.rewrited, part, hpart, rfl, rfl⟩

/-- While a hit is read, the wire stays as it is. -/
theorem reading_hit (e : Exchange) (left : List (Option Str)) :
    Reading e.readBodyPart fun w _ =>
      w.recv = left ∧ w.ToServer.rewrited = false ∧ w.ToServer.hit = true := by
  rintro w k n b w' ⟨hrecv, hrewrited, hhit⟩ hread hn
  obtain ⟨hrecv', hrewrited', part, hpart, hvalue, ht⟩ := readBodyPart_hit hrewrited (.inl hhit) hread
  have hframe := (readHit_told hpart).told.frame (by omega)
  refine ⟨hrecv'.trans hrecv, hrewrited', ?_⟩
  rw [ht, hframe.hit]
  exact hhit

/-- A page that is rewritten: a piece is read by each call, and no part of the page before the last
piece that is read has come to the announced length. -/
def Wire.Rewrites (e : Exchange) (pieces : List Str) (ref : Int) (w : Wire) (k : Int) : Prop :=
  w.Misses ∧ tracked w.ToServer.r.domain = true ∧ ∃ n, w.Has pieces n ∧
    (∀ m < n, e.rewritten pieces m ≠ ref) ∧
    (n < pieces.length → w.calls = n ∧ k = e.rewritten pieces n)

theorem rewritten_succ {n : Nat} (hlt : n < pieces.length) :
    e.rewritten pieces (n + 1) = e.rewritten pieces n + (e.track (n + 1) pieces[n]).1 := by
  unfold Exchange.rewritten
  have hlt' : n < (pieces.mapIdx fun i d => (e.track (i + 1) d).1).length := by
    rwa [List.length_mapIdx]
  rw [List.sum_take_succ _ n hlt', List.getElem_mapIdx]

theorem counting_rewrites (e : Exchange) (pieces : List Str) (ref : Int) :
    Counting e.readBodyPart (Wire.Rewrites e pieces ref) ref := by
  rintro w k n b w' ⟨hmisses, htracked, m, hhas, hbefore, hhere⟩ hk hread hn
  by_cases hlt : m < pieces.length
  · obtain ⟨hd, htail⟩ := hhas.next hlt
    obtain ⟨hcalls, hlength⟩ := hhere hlt
    obtain ⟨hvalue, rfl⟩ := readBodyPart_tracked hmisses htracked hd hread
    refine ⟨⟨hmisses.rewrited, hmisses.hit, hmisses.miss2hit⟩, htracked, m + 1, ⟨hlt, htail⟩, ?_, ?_⟩
    · intro i hi
      rcases Nat.lt_succ_iff_lt_or_eq.mp hi with hi | rfl
      · exact hbefore i hi
      · omega
    · intro _
      rw [rewritten_succ hlt, hvalue, hcalls, hlength]
      exact ⟨rfl, rfl⟩
  · obtain ⟨hd, htail⟩ := hhas.none hlt
    obtain ⟨-, rfl⟩ := readBodyPart_tracked hmisses htracked hd hread
    refine ⟨⟨hmisses.rewrited, hmisses.hit, hmisses.miss2hit⟩, htracked, m, ⟨hhas.1, ?_⟩, hbefore,
      fun hlt' => absurd hlt' hlt⟩
    rw [List.drop_eq_nil_of_le (Nat.not_lt.mp hlt)]
    exact htail

/-- A response that is passed on. -/
def Wire.Passes (pieces : List Str) (w : Wire) (k : Int) : Prop :=
  w.Misses ∧ ¬ tracked w.ToServer.r.domain = true ∧ w.ToServer.r.isMatch = false ∧
    ∃ n, w.Has pieces n ∧ k = (pieces.take n).flatten.length

theorem counting_passes (e : Exchange) (pieces : List Str) (ref : Int) :
    Counting e.readBodyPart (Wire.Passes pieces) ref := by
  rintro w k n b w' ⟨hmisses, htracked, hmatch, m, hhas, hlength⟩ - hread hn
  by_cases hlt : m < pieces.length
  · obtain ⟨hd, htail⟩ := hhas.next hlt
    obtain ⟨hvalue, hrecv, hmisses', hr⟩ := readBodyPart_passed hmisses htracked hmatch hd hread
    refine ⟨hmisses', hr ▸ htracked, hr ▸ hmatch, m + 1, ⟨hlt, hrecv.trans htail⟩, ?_⟩
    rw [length_take_succ hlt, hlength, hvalue]
  · obtain ⟨hd, -⟩ := hhas.none hlt
    obtain ⟨hvalue, -⟩ := readBodyPart_passed hmisses htracked hmatch hd hread
    rw [hvalue] at hn
    exact absurd hn (lt_irrefl 0)

/-- Where a miss stands that stores a response by `plan`, with `n` pieces read. -/
inductive Transfer.Storing (pieces : List Str) (plan : LintervalPositionByteDisk) (range_min last : Int)
    (n : Nat) (k : Int) (t : Transfer) : Prop
  | void (first : n = 0) (none : k = 0) (miss : t.miss2hit = false) (isOpen : t.isOpen = false)
      (plan : VoidPlan t.lrangeswork)
  | fetches (needs : 0 < n → NeedsServer plan (range_min + (pieces.take n).flatten.length))
      (length : k = (pieces.take n).flatten.length) (tiles : TilesBytes range_min plan last)
      (fetches : t.Fetches plan range_min last k)
  | turned (some : 0 < n) (stored : ¬ NeedsServer plan (range_min + (pieces.take n).flatten.length))
      (turned : t.miss2hit = true)

/-- A response that is stored: no piece before the last one that is read ends in the stored blocks at
the end of the plan. -/
def Wire.Stores (pieces : List Str) (plan : LintervalPositionByteDisk) (range_min last : Int) (w : Wire)
    (k : Int) : Prop :=
  w.ToServer.rewrited = false ∧ w.ToServer.hit = false ∧ ¬ tracked w.ToServer.r.domain = true ∧
    w.ToServer.r.isMatch = true ∧ ∃ n, w.Has pieces n ∧
      (∀ m < n, 0 < m → NeedsServer plan (range_min + (pieces.take m).flatten.length)) ∧
      w.ToServer.toTransfer.Storing pieces plan range_min last n k

theorem readMiss_nil {db : Db} {now : Int} {t : Transfer} {file : Str} {part : BodyPart}
    (h : readMiss db now t file (some []) = some part) : part.BodyLength = 0 := by
  obtain ⟨t₁, -, h⟩ := Option.bind_eq_some_iff.mp h
  cases h
  rfl

/-- A call for a miss that still stores the response: a piece is read. -/
theorem stores_miss {plan : LintervalPositionByteDisk} {range_min last k : Int}
    (hfilled : ∀ d ∈ pieces, d ≠ []) (h : w.Stores pieces plan range_min last k)
    (hmiss : w.ToServer.miss2hit = false)
    (hread : e.readBodyPart w = some (n, b, w')) (hn : 0 < n) :
    w'.Stores pieces plan range_min last (k + n) := by
  obtain ⟨hrewrited, hhit, htracked, hmatch, m, hhas, hbefore, hstage⟩ := h
  have hmisses : w.Misses := ⟨hrewrited, hhit, hmiss⟩
  by_cases hlt : m < pieces.length
  · obtain ⟨hd, htail⟩ := hhas.next hlt
    have hne := hfilled _ (List.getElem_mem hlt)
    obtain ⟨hrecv, hrewrited', part, hpart, hvalue, ht⟩ :=
      readBodyPart_stored hmisses htracked hmatch hd hread
    have hok : part.BodyLength ≠ -1 := by omega
    have hframe := (readMiss_told hpart).1.frame hok
    have hr : w'.ToServer.r = w.ToServer.r := by rw [ht, hframe.r]
    have hhit' : w'.ToServer.hit = false := by
      rw [ht, hframe.hit]
      exact hhit
    refine ⟨hrewrited', hhit', hr ▸ htracked, hr ▸ hmatch, m + 1, ⟨hlt, hrecv.trans htail⟩, ?_⟩
    cases hstage with
    | void first none miss isOpen plan => exact absurd (readMiss_void isOpen plan hne hpart).1 hok
    | turned some stored turned =>
      rw [turned] at hmiss
      cases hmiss
    | fetches needs length tiles fetches =>
      obtain ⟨hcount, hstep⟩ := readMiss_fetches tiles fetches hmiss hne hpart hok
      have hnext : k + n = (pieces.take (m + 1)).flatten.length := by
        rw [length_take_succ hlt, length, hvalue, hcount]
      rw [← hcount, ← hvalue, hnext, ← ht] at hstep
      refine ⟨fun i hi hpos => ?_, ?_⟩
      · rcases Nat.lt_succ_iff_lt_or_eq.mp hi with hi | rfl
        · exact hbefore i hi hpos
        · exact needs hpos
      · rcases hstep with ⟨hneeds, hfetches⟩ | ⟨hstored, hturned⟩
        · exact .fetches (fun _ => hneeds) hnext tiles (hnext ▸ hfetches)
        · exact .turned (Nat.succ_pos m) hstored hturned
  · obtain ⟨hd, -⟩ := hhas.none hlt
    obtain ⟨-, -, part, hpart, hvalue, -⟩ := readBodyPart_stored hmisses htracked hmatch hd hread
    have := readMiss_nil hpart
    omega

/-- A call for a miss that is turned reads the cache file. -/
theorem stores_turned {plan : LintervalPositionByteDisk} {range_min last k : Int}
    (h : w.Stores pieces plan range_min last k) (hturned : w.ToServer.miss2hit = true)
    (hread : e.readBodyPart w = some (n, b, w')) (hn : 0 < n) :
    w'.Stores pieces plan range_min last (k + n) := by
  obtain ⟨hrewrited, hhit, htracked, hmatch, m, hhas, hbefore, hstage⟩ := h
  obtain ⟨hrecv, hrewrited', part, hpart, hvalue, ht⟩ := readBodyPart_hit hrewrited (.inr hturned) hread
  have hok : part.BodyLength ≠ -1 := by omega
  have htold := readHit_told hpart
  have hframe := htold.told.frame hok
  have hr : w'.ToServer.r = w.ToServer.r := by rw [ht, hframe.r]
  have hhit' : w'.ToServer.hit = false := by
    rw [ht, hframe.hit]
    exact hhit
  have hturned' : w'.ToServer.miss2hit = true := by
    rw [ht, htold.mode.resolve_left hok]
    exact hturned
  refine ⟨hrewrited', hhit', hr ▸ htracked, hr ▸ hmatch, m, ⟨hhas.1, hrecv.trans hhas.2⟩, hbefore, ?_⟩
  cases hstage with
  | void first none miss isOpen plan =>
    rw [miss] at hturned
    cases hturned
  | turned some stored turned => exact .turned some stored hturned'
  | fetches needs length tiles fetches =>
    cases fetches with
    | waits miss waits sent lacks keeps =>
      rw [miss] at hturned
      cases hturned
    | behind miss isOpen brange done =>
      rw [miss] at hturned
      cases hturned
    | whole turned isOpen brange sent =>
      have := readHit_whole isOpen brange sent hpart
      omega

theorem counting_stores (e : Exchange) (hfilled : ∀ d ∈ pieces, d ≠ [])
    (plan : LintervalPositionByteDisk) (range_min last ref : Int) :
    Counting e.readBodyPart (Wire.Stores pieces plan range_min last) ref := by
  rintro w k n b w' h - hread hn
  cases hturned : w.ToServer.miss2hit with
  | true => exact stores_turned h hturned hread hn
  | false => exact stores_miss hfilled h hturned hread hn

/-- Before the body, a miss stores the response by its plan. -/
theorem Connection.Anchored.storing {c : Connection} {first : Int} (h : c.Anchored first)
    (hhit : c.hit = false) (hl : WellFormed c.lranges) (h₀ : 0 ≤ c.range_min) (pieces : List Str) :
    ∃ last, c.toTransfer.Storing pieces c.lrangeswork c.range_min last 0 0 := by
  have hwork : c.lrangeswork = c.brange := by rw [Transfer.lrangeswork, h.passed, List.nil_append]
  have hvoid : VoidPlan c.brange → c.toTransfer.Storing pieces c.lrangeswork c.range_min 0 0 0 :=
    fun hplan => .void rfl rfl h.miss2hit h.isOpen (hwork ▸ hplan)
  rcases h.plan with hnil | ⟨l, top, hperm, hplan⟩
  · exact ⟨0, hvoid (.inl hnil)⟩
  · rw [← h.range_min] at hplan
    have hmiss : (getRangeWork l c.range_min top).2 = false := by rw [← hplan, hhit]
    have hbrange : c.brange = (getRangeWork l c.range_min top).1 := by rw [← hplan]
    by_cases hle : c.range_min ≤ top
    · have hstart : c.toTransfer.Starts l (getRangeWork l c.range_min top).1 :=
        ⟨hperm, h.passed, hbrange, h.acumulate, h.miss2hit, h.isOpen, h.filesended⟩
      obtain ⟨htiles, -, -⟩ := getRangeWork_spec (hl.perm hperm).toStoredList h₀ hle
      have hfetches := hstart.fetches (hl.perm hperm) h₀ hle hmiss
      rw [← hbrange, ← hwork] at htiles hfetches
      exact ⟨_, .fetches (fun hzero => absurd hzero (lt_irrefl 0)) rfl htiles hfetches⟩
    · have hempty := getRangeWork_before (hl.perm hperm).toStoredList h₀ (Int.not_le.mp hle) hmiss
      refine ⟨0, hvoid (.inr ⟨_, hbrange.trans hempty, Int.not_le.mp hle, ?_⟩)⟩
      exact show (-1 : Int) < 0 by decide

/-- What a relay leaves that has stored a response and keeps both connections. -/
theorem Wire.Stores.left_eq_nil {plan : LintervalPositionByteDisk} {range_min last ref : Int}
    (hfilled : ∀ d ∈ pieces, d ≠ []) (href : 0 < ref) (hlength : (pieces.flatten.length : Int) = ref)
    (h : w.Stores pieces plan range_min last ref) :
    w.recv = [] ↔ ∀ n < pieces.length, 0 < n →
      NeedsServer plan (range_min + (pieces.take n).flatten.length) := by
  obtain ⟨-, -, -, -, m, hhas, hbefore, hstage⟩ := h
  rw [hhas.left_eq_nil]
  constructor
  · rintro rfl
    exact hbefore
  · intro hneeds
    cases hstage with
    | void first none miss isOpen plan => omega
    | fetches needs length tiles fetches => exact length_take_eq hfilled hhas.1 (by omega)
    | turned some stored turned =>
      by_contra hne
      exact stored (hneeds m (Nat.lt_of_le_of_ne hhas.1 hne) some)

theorem Wire.Rewrites.left_eq_nil {ref : Int} (h : w.Rewrites e pieces ref ref) :
    w.recv = [] ↔ ∀ n < pieces.length, e.rewritten pieces n ≠ ref := by
  obtain ⟨-, -, m, hhas, hbefore, hhere⟩ := h
  rw [hhas.left_eq_nil]
  constructor
  · rintro rfl
    exact hbefore
  · intro hnone
    by_contra hne
    have hlt := Nat.lt_of_le_of_ne hhas.1 hne
    exact hnone m hlt (hhere hlt).2.symm

theorem Wire.Passes.left_eq_nil {ref : Int} (hfilled : ∀ d ∈ pieces, d ≠ [])
    (hlength : (pieces.flatten.length : Int) = ref) (h : w.Passes pieces ref) : w.recv = [] := by
  obtain ⟨-, -, -, m, hhas, htaken⟩ := h
  exact hhas.left_eq_nil.mpr (length_take_eq hfilled hhas.1 (by omega))

end Body

/-! ## The call -/

section Call

variable {e : Exchange} {p p' : Proxy} {pieces : List Str} {contentLengthReference : Int}

theorem getResponse_fields (db : Db) (c : Connection) :
    (c.getResponse db).2.rewrited = c.rewrited ∧ (c.getResponse db).2.miss2hit = c.miss2hit ∧
      (c.getResponse db).2.hit = c.hit ∧ (c.hit = false → (c.getResponse db).1 = c.HTMLResponse) := by
  unfold Connection.getResponse
  split
  · next hhit =>
    refine ⟨rfl, rfl, rfl, fun hmiss => ?_⟩
    rw [hmiss] at hhit
    cases hhit
  · next hmiss =>
    split
    · exact ⟨rfl, liberateEdition_miss2hit db _,
        (liberateEdition_hit db _).trans (Bool.eq_false_iff.mpr hmiss).symm, fun _ => rfl⟩
    · exact ⟨rfl, rfl, rfl, fun _ => rfl⟩

/-- A relay that keeps both connections found the server connection kept. -/
theorem relay_dropServer {y : Relay Wire}
    (h : e.relayBody contentLengthReference p = some (0, y)) (hserver : y.DropServer = false)
    (hbrowser : y.DropBrowser = false) : p.DropServer = false := by
  have hends := relay_ends (J := fun _ _ => True) (fun _ _ _ _ _ _ _ _ => trivial) _ trivial h
  obtain ⟨s, k, -, -, hdropped⟩ := hends.updated hbrowser
  refine Bool.eq_false_iff.mpr fun hdrop => ?_
  rw [hdropped hdrop] at hserver
  cases hserver

/-- What the relay of a body leaves on the wire. -/
theorem relayBody_left {y : Relay Wire} (hfilled : ∀ d ∈ pieces, d ≠ [])
    (hrecv : e.recv = pieces.map some) (hrewrited : p.ToServer.rewrited = false)
    (hmiss : p.ToServer.miss2hit = false)
    (hsized : p.ToServer.hit = false → contentLengthReference = e.analysed.ContentLength ∧
      0 < e.analysed.ContentLength ∧ ((pieces.flatten.length : Int) = e.analysed.ContentLength ∨
        tracked p.ToServer.r.domain = true))
    (hplan : p.ToServer.r.isMatch = true → p.ToServer.hit = false → ∃ last,
      p.ToServer.toTransfer.Storing pieces p.ToServer.lrangeswork p.ToServer.range_min last 0 0)
    (h : e.relayBody contentLengthReference p = some (0, y)) (hserver : y.DropServer = false)
    (hbrowser : y.DropBrowser = false) :
    y.ToServer.recv = [] ↔ p.ToServer.TakesAll e pieces := by
  unfold Connection.TakesAll
  cases hhit : p.ToServer.hit with
  | true =>
    rw [if_pos rfl]
    have hends := relay_ends (reading_hit e e.recv) _ ⟨rfl, hrewrited, hhit⟩ h
    obtain ⟨s, k, hread, hupdate, -⟩ := hends.updated hbrowser
    rw [hupdate]
    change s.recv = [] ↔ _
    rw [hread.1, hrecv, List.map_eq_nil_iff]
  | false =>
    obtain ⟨rfl, hpos, hlength⟩ := hsized hhit
    have hstart : ∀ calls : Nat, Wire.Misses ⟨p.ToServer, e.file, e.recv, calls⟩ :=
      fun _ => ⟨hrewrited, hhit, hmiss⟩
    rw [if_neg (by decide)]
    by_cases htracked : tracked p.ToServer.r.domain = true
    · rw [if_pos htracked]
      obtain ⟨s, hs, hupdate⟩ := relay_kept (counting_rewrites e pieces _) hpos _
        ⟨hstart 0, htracked, 0, .start hrecv, fun _ hm => absurd hm (Nat.not_lt_zero _),
          fun _ => ⟨rfl, rfl⟩⟩ h hserver hbrowser
      rw [hupdate]
      exact hs.left_eq_nil
    · rw [if_neg htracked]
      have hlength := hlength.resolve_right htracked
      cases hmatch : p.ToServer.r.isMatch with
      | false =>
        obtain ⟨s, hs, hupdate⟩ := relay_kept (counting_passes e pieces _) hpos _
          ⟨hstart 0, htracked, hmatch, 0, .start hrecv, rfl⟩ h hserver hbrowser
        have hnil : s.recv = [] := hs.left_eq_nil hfilled hlength
        rw [hupdate]
        exact iff_of_true hnil nofun
      | true =>
        obtain ⟨last, hstoring⟩ := hplan hmatch hhit
        obtain ⟨s, hs, hupdate⟩ := relay_kept
          (counting_stores e hfilled p.ToServer.lrangeswork p.ToServer.range_min last _) hpos _
          ⟨hrewrited, hhit, htracked, hmatch, 0, .start hrecv,
            fun m hm => absurd hm (Nat.not_lt_zero m), hstoring⟩ h hserver hbrowser
        rw [hupdate]
        refine (hs.left_eq_nil hfilled hpos hlength).trans ?_
        exact ⟨fun hneeds _ => hneeds, fun hneeds => hneeds rfl⟩

/-- A call that keeps the server connection has kept it behind the header. -/
theorem deliver_dropServer (h : e.deliver contentLengthReference p = some (0, p')) (hkept : p'.Kept) :
    p.DropServer = false := by
  unfold Exchange.deliver at h
  dsimp only at h
  split at h
  · unfold Exchange.finish at h
    split at h <;> cases h
    have hserver := hkept.2.1
    simp only [Bool.or_eq_false_iff] at hserver
    exact hserver.1
  · obtain ⟨⟨answer, y⟩, hrelay, heq⟩ := Option.map_eq_some_iff.mp h
    cases heq
    have hserver := relay_dropServer hrelay hkept.2.1 hkept.2.2.1
    exact hserver

theorem noBody_iff : e.noBody contentLengthReference e.analysed.HTMLResponse = true ↔
    e.Bodyless ∨ contentLengthReference = 0 := by
  unfold Exchange.noBody Exchange.Bodyless
  rw [decide_eq_true_iff]
  tauto

/-- A call that reads no body leaves nothing only where there is none. -/
theorem noBody_left {c : Connection} (hframed : e.WellFramed p' pieces)
    (honce : c.hit = false → contentLengthReference = e.analysed.ContentLength)
    (hlength : ¬ e.Bodyless → (pieces.flatten.length : Int) = e.analysed.ContentLength ∨
      tracked c.r.domain = true)
    (hbody : c.hit = false → e.noBody contentLengthReference e.analysed.HTMLResponse = true) :
    pieces = [] ↔ c.TakesAll e pieces := by
  unfold Connection.TakesAll
  by_cases hnil : pieces = []
  · refine iff_of_true hnil ?_
    subst hnil
    split_ifs
    · rfl
    · exact fun n hn => absurd hn (Nat.not_lt_zero n)
    · exact fun _ n hn => absurd hn (Nat.not_lt_zero n)
  · refine iff_of_false hnil fun htakes => ?_
    cases hhit : c.hit with
    | true =>
      rw [if_pos hhit] at htakes
      exact hnil htakes
    | false =>
      have hbodyless : ¬ e.Bodyless := fun hb => hnil (hframed.bodyless hb)
      have hzero : e.analysed.ContentLength = 0 :=
        honce hhit ▸ (noBody_iff.mp (hbody hhit)).resolve_left hbodyless
      obtain ⟨d, ds, rfl⟩ := List.exists_cons_of_ne_nil hnil
      have hd := hframed.filled d List.mem_cons_self
      rcases hlength hbodyless with hlength | htracked
      · have hempty : (d :: ds).flatten = [] := List.length_eq_zero_iff.mp (by omega)
        rw [List.flatten_cons, List.append_eq_nil_iff] at hempty
        exact hd hempty.1
      · rw [if_neg (by simp [hhit]), if_pos htracked] at htakes
        refine htakes 0 (Nat.zero_lt_succ _) ?_
        rw [hzero]
        rfl

/-- What a call leaves of a body on the wire. -/
theorem deliver_left (hframed : e.WellFramed p' pieces) (hrewrited : p.ToServer.rewrited = false)
    (hmiss : p.ToServer.miss2hit = false)
    (honce : p.ToServer.hit = true ∨
      (p.ToServer.hit = false ∧ contentLengthReference = e.analysed.ContentLength ∧
        p.ToServer.HTMLResponse = e.analysed.HTMLResponse))
    (hlength : ¬ e.Bodyless → (pieces.flatten.length : Int) = e.analysed.ContentLength ∨
      tracked (p.ToServer.getResponse e.db).2.r.domain = true)
    (hplan : (p.ToServer.getResponse e.db).2.r.isMatch = true →
      (p.ToServer.getResponse e.db).2.hit = false → ∃ last,
        (p.ToServer.getResponse e.db).2.toTransfer.Storing pieces
          (p.ToServer.getResponse e.db).2.lrangeswork (p.ToServer.getResponse e.db).2.range_min last 0 0)
    {p₅ : Proxy} (h : e.deliver contentLengthReference p = some (0, p₅)) (hkept : p₅.Kept) :
    ∃ left, e.unread contentLengthReference p = some left ∧
      (left = [] ↔ (p.ToServer.getResponse e.db).2.TakesAll e pieces) := by
  obtain ⟨hrew, hturn, hhit, hresponse⟩ := getResponse_fields e.db p.ToServer
  unfold Exchange.deliver at h
  unfold Exchange.unread
  dsimp only at h ⊢
  generalize hc : p.ToServer.getResponse e.db = answered at *
  obtain ⟨response, c⟩ := answered
  dsimp only at hrew hturn hhit hresponse hlength hplan h ⊢
  have hsized : c.hit = false → contentLengthReference = e.analysed.ContentLength ∧
      response = e.analysed.HTMLResponse := by
    intro hh
    rcases honce with htrue | ⟨hh', href, hresponse'⟩
    · rw [← hhit, hh] at htrue
      cases htrue
    · exact ⟨href, (hresponse hh').trans hresponse'⟩
  split at h
  · next hbody =>
    rw [if_pos hbody]
    refine ⟨_, rfl, ?_⟩
    rw [hframed.recv, List.map_eq_nil_iff]
    exact noBody_left hframed (fun hh => (hsized hh).1) hlength fun hh => (hsized hh).2 ▸ hbody
  · next hbody =>
    rw [if_neg hbody]
    obtain ⟨⟨answer, y⟩, hrelay, heq⟩ := Option.map_eq_some_iff.mp h
    cases heq
    rw [hrelay]
    refine ⟨_, rfl, ?_⟩
    refine relayBody_left hframed.filled hframed.recv (hrew.trans hrewrited) (hturn.trans hmiss) ?_ hplan
      hrelay hkept.2.1 hkept.2.2.1
    intro hh
    obtain ⟨rfl, rfl⟩ := hsized hh
    rw [noBody_iff, not_or] at hbody
    have hannounced := hframed.announced
    exact ⟨rfl, by omega, hlength hbody.1⟩

/-- Without a plugin for the domain nothing is stored. -/
theorem cache_unasked {db : Db} {asked : Asked} {c c' : Connection} (hplugin : asked.plugin = none)
    (h : c.cache db asked = some c') : c'.r.isMatch = false := by
  have hask : (c.ask asked).r.isMatch = false := by
    simp only [Connection.ask, hplugin]
    rfl
  cases cache_cases h with
  | unasked unmatched result =>
    rw [result]
    exact hask
  | refused matched => exact absurd (hask.symm.trans matched) (by decide)
  | used matched => exact absurd (hask.symm.trans matched) (by decide)

/-- The states of a call that is sent to the server and delivers a response. -/
theorem communicate_states (hsent : p.HasSent) (hasks : e.AsksServer p)
    (h : e.communicate p = some (0, p')) :
    ∃ p₁ p₂ p₃ p₄ contentLengthReference, e.admitted p = some p₁ ∧ e.lookUp p₁ = some p₂ ∧
      e.contact p₂ = .goesOn p₃ ∧ e.respond p₃ = some (.ok (contentLengthReference, p₄)) ∧
      e.deliver contentLengthReference p₄ = some (0, p') ∧ p₃.ToServer.hit = false ∧
      p₃.ToServer.rewrited = false ∧ p₃.ToServer.miss2hit = false ∧
      (e.asked.plugin = none → p₃.ToServer.r.isMatch = false) := by
  cases Exchange.ends_of_communicate h with
  | vet vet => exact absurd (vet_answer vet) (by decide)
  | contact vet lookUp contact => exact absurd rfl (contact_answer contact)
  | respond vet lookUp contact respond => exact absurd rfl (respond_answer respond)
  | @deliver out p₁ p₂ p₃ p₄ contentLengthReference vet lookUp contact respond deliver =>
    have hadmitted : e.admitted p = some p₁ := by
      unfold Exchange.admitted
      rw [vet]
      rfl
    obtain ⟨hhit, hrewrited⟩ := hasks p₁ hadmitted p₂ lookUp
    obtain ⟨isOpen, connected, operation, hask, -⟩ :=
      asking_toServer (e := e) ((admitted_size hadmitted).2 hsent)
    have hcached := lookUp
    unfold Exchange.lookUp at hcached
    rw [hask] at hcached
    obtain ⟨c, hcache, rfl⟩ := Option.map_eq_some_iff.mp hcached
    obtain ⟨-, etag, hsame⟩ := contact_toServer contact
    have hmiss := cache_mode hcache
    have hunasked : e.asked.plugin = none → c.r.isMatch = false :=
      fun hplugin => cache_unasked hplugin hcache
    refine ⟨p₁, _, p₃, p₄, contentLengthReference, hadmitted, lookUp, contact, respond, deliver, ?_⟩
    rw [hsame]
    exact ⟨hhit, hrewrited, hmiss, hunasked⟩

end Call

instance (p : Proxy) : Decidable p.Kept :=
  inferInstanceAs (Decidable (p.ServerConnected = true ∧ p.DropServer = false ∧ p.DropBrowser = false ∧
    p.BrowserDropped = false))

/-- A call that keeps both connections. -/
theorem exists_kept {e : Exchange} {p : Proxy}
    (h : (e.communicate p).map (fun out => decide (out.1 = 0 ∧ out.2.Kept)) = some true) :
    ∃ p', e.communicate p = some (0, p') ∧ p'.Kept := by
  obtain ⟨⟨answer, p'⟩, hcall, hout⟩ := Option.map_eq_some_iff.mp h
  obtain ⟨rfl, hkept⟩ := of_decide_eq_true hout
  exact ⟨p', hcall, hkept⟩

/-- A request for four bytes of which the last two are stored; the server sends them in two pieces. -/
def halfStoredExchange : Exchange :=
  { twoBytesExchange with
    asked :=
      { plugin := some ⟨true, ['d'], ['f'], 0, 0, 0, false⟩
        found := some (some ⟨['f'], some false, false⟩), directories := [⟨true, true⟩]
        selected := some (some ⟨4, ['2', '-', '3'], ['0']⟩) }
    read := (true, contentLength ++ ['4']), analysed := ⟨200, 4, true, false⟩
    recv := [some ['a', 'b'], some ['c', 'd']], file := ['c', 'd'] }

end Haarp
