import Haarp.Base.Run
import Haarp.Http.Resolve
import Haarp.Proxy.Communication

/-!
# A browser connection

The loop of `ProxyHandler::Proxy`: the requests of one browser connection are read, answered by
`CommunicationHTTP`, repeated on a new server connection where that fails, and the last one may be
answered with the page of `ProxyMessage`.

`serve` gives what is sent, in order, for any list of requests: the headers that go to a server, the
replies and pages that go to the browser. A request says what its calls of `CommunicationHTTP` meet;
whether it goes to the host of the server connection, to which address, and how often it is repeated
follows from the members of the loop and of the socket. The code is the one without `SSLTUNNEL`, and
without the block of `Cache` for the general plugin.

* `serve_framed`: the browser can tell the replies apart. Every reply but the last has the announced
  length, and a page follows a reply only if the body of that reply breaks off.
* `serve_addressed`: a header is sent only to an address of the server that its request names, or of
  the parent, if all these hosts are found. `serve_misaddressed`: `CommunicationHTTP` does not see that
  one is not.
-/

namespace Haarp

open Base

/-! ## The page of an error -/

/-- The texts `filename` and `message` of `ProxyMessage`. -/
structure Report where
  filename : Str
  message : Str
  deriving DecidableEq, Repr

def errorDNS : Str := "ERROR DNS".toList
def errorDown : Str := "ERROR DOWN".toList
def errorRequest : Str := "ERROR REQUEST".toList

def report (answer : Int) (Host CompleteRequest : Str) : Report :=
  if answer = -50 then ⟨errorDNS, Host⟩
  else if answer = -51 then ⟨errorDNS, "Parentproxy did not resolve".toList⟩
  else if answer = -60 then ⟨errorDown, "Connection failed".toList⟩
  else if answer = -61 then ⟨errorDown, "Parentproxy down".toList⟩
  else if answer = -74 then ⟨errorDown, "Zero sized reply".toList⟩
  else if answer = -75 then ⟨errorDown, "Could not read body".toList⟩
  else if answer = -76 then ⟨errorDown, "Could not send body".toList⟩
  else if answer = -80 then ⟨errorDown, "Could not read headers".toList⟩
  else if answer = -110 then
    ⟨errorRequest, "FTP is currently supported only<br>if PARENTPROXY is used!".toList⟩
  else if answer = -201 then ⟨errorRequest, "Invalid request".toList⟩
  else if answer = -202 then ⟨errorRequest, "Invalid request method".toList⟩
  else if answer = -210 then ⟨errorRequest, "Hostname too long".toList⟩
  else if answer = -211 then ⟨errorRequest, "Port not allowed".toList⟩
  else if answer = -212 then ⟨errorRequest, "Invalid port".toList⟩
  else if answer = -215 then ⟨errorRequest, "Unsupported protocol".toList⟩
  else if answer = -230 then ⟨errorRequest, "Invalid HTTP response from server".toList⟩
  else if answer = -231 then
    ⟨errorRequest, "Server tried to send partial data<br>and RANGE is set to false".toList⟩
  else if answer = -232 then
    ⟨errorRequest, "Server sent forbidden Transfer-Encoding header".toList⟩
  else if answer = -233 then
    ⟨errorRequest, "Server sent Chunked response with Content-Length".toList⟩
  else if answer = -250 then ⟨"ERROR MAXSIZE".toList, CompleteRequest⟩
  else if answer = -300 then ⟨errorRequest, "SSL tunneling failed through parentproxy".toList⟩
  else ⟨"ERROR BODY".toList, (longText answer).take 9⟩

/-- The header of a page. -/
def Report.header (x : Report) (UserAgent : Str) : Str :=
  let Code := if (find "MSIE".toList UserAgent).isSome then "200".toList else "403".toList
  let Erro :=
    if x.filename = errorDNS then "DNS error by Haarp".toList
    else if x.filename = errorDown then "Server down by Haarp".toList
    else if x.filename = errorRequest then "Request error by Haarp".toList
    else "Forbidden by Haarp".toList
  "HTTP/1.0 ".toList ++ Code ++ " \r\nMensagem: ".toList ++ x.message ++ "\r\nErro: ".toList ++
    Erro ++
    "\r\nContent-Type: text/html\r\nProxy-Connection: close\r\nConnection: close\r\n\r\n".toList

/-- The texts of a page; there is no body for `HEAD`. -/
def Report.texts (x : Report) (UserAgent : Str) (requestType : RequestType) : List Str :=
  if requestType = .head then [x.header UserAgent]
  else [x.header UserAgent, x.filename ++ ": ".toList ++ x.message]

/-! ## One call -/

/-- What a call of `CommunicationHTTP` sends to the browser: the header, and the pieces of a body of
the length `announced`, which is -1 where it is not known. -/
structure Reply where
  header : Bool
  body : List Str
  announced : Int
  deriving DecidableEq, Repr

/-- Nothing is sent. -/
def Reply.silent : Reply := ⟨false, [], 0⟩

/-- What a reply has sent of its body. -/
def Reply.length (r : Reply) : Nat := r.body.flatten.length

/-- The header and the whole body are sent, for a length that is known (a plan turned upside down may
announce a negative one). -/
def Reply.Whole (r : Reply) : Prop :=
  r.header = true ∧ r.announced ≠ -1 ∧ (0 ≤ r.announced → (r.length : Int) = r.announced)

/-- The header is sent, and not more than the announced body. -/
def Reply.Partial (r : Reply) : Prop :=
  r.header = true ∧ (0 ≤ r.announced → (r.length : Int) ≤ r.announced)

/-- The body breaks off. -/
def Reply.Broken (r : Reply) : Prop :=
  r.header = true ∧ (0 ≤ r.announced → (r.length : Int) < r.announced)

/-- What `deliver` sends. -/
def Exchange.deliveredReply (e : Exchange) (contentLengthReference : Int) (p : Proxy) :
    Option Reply :=
  let (response, c) := p.ToServer.getResponse e.db
  if e.noBody contentLengthReference response then some ⟨e.headerTaken, [], 0⟩
  else
    (e.relayBody contentLengthReference { p with ToServer := c }).map fun (answer, y) =>
      ⟨e.headerTaken && decide (answer ≠ -74), y.sent, contentLengthReference⟩

/-- The state when the server is contacted, if it comes to that. -/
def Exchange.contacting (e : Exchange) (p : Proxy) : Option Proxy :=
  ((e.vet p).bind Part.goes).bind e.lookUp

/-- What `communicate` sends to the browser. -/
def Exchange.reply (e : Exchange) (p : Proxy) : Option Reply :=
  match (e.contacting p).bind fun p => (e.contact p).goes with
  | none => some .silent
  | some p =>
    (e.respond p).bind fun
      | .error _ => some .silent
      | .ok (contentLengthReference, p) => e.deliveredReply contentLengthReference p

/-! ## The loop -/

/-- `RequestProtocol` -/
inductive Protocol
  | http
  | ftp
  | other
  deriving DecidableEq, Repr

/-- A call of `CommunicationHTTP`, with what the resolver answers if it is asked. -/
structure HostCall (Address : Type*) where
  exchange : Exchange
  answer : Option (Hostent Address)

/-- What one turn of the loop meets: the request, its call and what its repeats would be. -/
structure Request (Address : Type*) where
  /-- `CheckForData(5)`, `ReadHeader`, `AnalyseHeader`, and whether there is a host and a port. -/
  arrives : Bool
  readable : Bool
  analysed : Int
  addressed : Bool
  keepAlive : Bool
  /-- `CheckForData(0)` -/
  waits : Bool
  requestType : RequestType
  protocol : Protocol
  Host : Str
  Port : Int
  CompleteRequest : Str
  UserAgent : Str
  call : HostCall Address
  repeats : List (HostCall Address)
  /-- The browser takes the texts of a page. -/
  takes : List Str → Str → Bool

/-- The members of the loop, and those of the socket of `ToServer`: the address that
`SetDomainAndPort` has left, and the peer that the socket is connected to. -/
structure Conversation (Address : Type*) where
  proxy : Proxy
  alivecount : Nat
  ConnectedHost : Str
  ConnectedPort : Int
  address : PeerAddress Address
  peer : Option (Address × Int)

inductive Output (Address : Type*)
  /-- The header of a request for `Host` and `Port` is sent to a server. -/
  | header (peer : Address × Int) (Host : Str) (Port : Int)
  | reply (r : Reply)
  | page (answer : Int) (texts : List Str)
  deriving DecidableEq

variable {Address : Type*}

/-- `Proxy`, before the first request. -/
def Conversation.new (sin_addr : Address) : Conversation Address :=
  { proxy := .new, alivecount := 0, ConnectedHost := [], ConnectedPort := 0
    address := .blank sin_addr, peer := none }

instance (e : Exchange) (answer : Int) : Decidable (e.repeats answer) :=
  inferInstanceAs (Decidable (_ ∨ _ ∨ _))

section Loop

-- `ParentHost` and `ParentPort`, if there is a parent proxy
variable (inet_aton : Str → Option Address) (parent : Option (Str × Int))

/-- Whom a server connection for the request is made to. -/
def Request.server (r : Request Address) : Str × Int := parent.getD (r.Host, r.Port)

/-- The call with what the loop knows. -/
def Request.facing (r : Request Address) (e : Exchange) (s : Conversation Address) : Exchange :=
  { e with
    requestType := r.requestType, parent := parent.isSome
    sameHost := decide (r.Host = s.ConnectedHost ∧ r.Port = s.ConnectedPort) }

/-- The address behind `SetDomainAndPort`, which asks for the server of a new server connection unless
the entry is a hit. The value 0 of a failure is none of the codes that `CommunicationHTTP` tests, and
the address stays. -/
def Request.addressAt (r : Request Address) (c : HostCall Address) (s : Conversation Address) :
    Option (PeerAddress Address) :=
  match (r.facing parent c.exchange s).contacting s.proxy with
  | none => some s.address
  | some p =>
    if p.ServerConnected ∨ p.ToServer.hit then some s.address
    else
      (s.address.setDomainAndPort inet_aton
        ⟨(r.server parent).1, (r.server parent).2, c.answer⟩).map (·.2)

/-- The socket when the header is sent: the old one, unless it is closed for another host, or a new
one. -/
def Exchange.peerAt (e : Exchange) (address : PeerAddress Address) (s : Conversation Address) :
    Option (Address × Int) :=
  match e.contacting s.proxy with
  | none => s.peer
  | some p =>
    if p.ServerConnected then s.peer
    else if ¬ p.ToServer.rewrited ∧ ¬ p.ToServer.hit ∧ e.connects then
      some (address.sin_addr, address.sin_port)
    else none

/-- The call `e` for the request, from the state `s`. Without a socket nothing can be sent to the
server. -/
def Request.exchange (r : Request Address) (e : Exchange) (address : PeerAddress Address)
    (s : Conversation Address) : Exchange :=
  let e := r.facing parent e s
  { e with takesHeader := e.takesHeader && (e.peerAt address s).isSome }

/-- The header of the request goes over the socket. -/
def Exchange.forwards (e : Exchange) (s : Conversation Address) : Bool :=
  match e.contacting s.proxy with
  | none => false
  | some p => (p.ServerConnected || e.connects) && !p.ToServer.rewrited && !p.ToServer.hit

/-- What the call sends to a server. -/
def Request.forwarded (r : Request Address) (e : Exchange) (address : PeerAddress Address)
    (s : Conversation Address) : List (Output Address) :=
  match e.peerAt address s with
  | some server => if e.forwards s then [.header server r.Host r.Port] else []
  | none => []

/-- `ConnectedHost` and `ConnectedPort` behind the call. -/
def Request.connected (r : Request Address) (e : Exchange) (s : Conversation Address) : Str × Int :=
  match e.contacting s.proxy with
  | none => (s.ConnectedHost, s.ConnectedPort)
  | some p =>
    if ¬ p.ServerConnected ∧ parent.isNone ∧
        (p.ToServer.rewrited ∨ p.ToServer.hit ∨ e.connects) then (r.Host, r.Port)
    else (s.ConnectedHost, s.ConnectedPort)

/-- One call of `CommunicationHTTP`. -/
def Request.communicate (r : Request Address) (c : HostCall Address) (s : Conversation Address) :
    Option (Int × Conversation Address × List (Output Address)) :=
  (r.addressAt inet_aton parent c s).bind fun address =>
    let e := r.exchange parent c.exchange address s
    (e.communicate s.proxy).bind fun (answer, p) =>
      (e.reply s.proxy).map fun reply =>
        (answer,
          { s with
            proxy := p, address, peer := e.peerAt address s
            ConnectedHost := (r.connected parent e s).1
            ConnectedPort := (r.connected parent e s).2 },
          r.forwarded e address s ++ if reply.header then [.reply reply] else [])

/-- `CloseUpdate` of the loop. -/
def Conversation.closeUpdate (e : Exchange) (s : Conversation Address) : Conversation Address :=
  { s with proxy := e.closeUpdate s.proxy, peer := none }

/-- The calls that repeat the call `e`, while they fail and addresses are left. -/
def Request.repeatCalls (r : Request Address) :
    List (HostCall Address) → Exchange → Nat → Int → Conversation Address →
    Option (Exchange × Int × Conversation Address × List (Output Address))
  | calls, e, retries, answer, s =>
    if (r.facing parent e s).repeats answer then
      match calls with
      | [] => none
      | c :: calls =>
        (r.communicate inet_aton parent c (s.closeUpdate e)).bind fun (answer, s, outs) =>
          let s :=
            if answer = 0 then { s with proxy := { s.proxy with DropServer := false } } else s
          -- `IPCount`
          if retries + 1 ≥ s.address.ips then some (c.exchange, answer, s, outs)
          else
            (r.repeatCalls calls c.exchange (retries + 1) answer s).map
              fun (e, answer, s, more) => (e, answer, s, outs ++ more)
    else some (e, answer, s, [])

/-- `ProxyMessage`: nothing is sent to a browser that is gone. -/
def Request.proxyMessage (r : Request Address) (answer : Int) (s : Conversation Address) :
    Conversation Address × List (Output Address) :=
  if s.proxy.BrowserDropped then (s, [])
  else
    let texts := (report answer r.Host r.CompleteRequest).texts r.UserAgent r.requestType
    -- `Send` of the second text is not tried where the first one fails.
    let taken := if r.takes [] (texts.headD []) then texts else texts.take 1
    (s, [.page answer taken])

/-- The rest of a turn with an answer: the server connection is closed where it has to be, and an
error is reported. -/
def Request.conclude (r : Request Address) (e : Exchange) (answer : Int) (s : Conversation Address) :
    Conversation Address × List (Output Address) :=
  let closes := s.proxy.DropServer ∨ s.proxy.DropBrowser ∨ s.proxy.BrowserDropped
  let s := if closes then s.closeUpdate e else s
  if answer ≠ 0 then
    let (s, outs) := r.proxyMessage answer s
    ({ s with proxy := { s.proxy with DropBrowser := true } }, outs)
  else (s, [])

/-- A request that goes to a server. -/
def Request.answered (r : Request Address) (s : Conversation Address) :
    Option (Conversation Address × List (Output Address)) :=
  (r.communicate inet_aton parent r.call s).bind fun (answer, s, first) =>
    (r.repeatCalls inet_aton parent r.repeats r.call.exchange 0 answer s).map fun (e, answer, s, more) =>
      let (s, page) := r.conclude e answer s
      (s, first ++ more ++ page)

/-- A `continue` with `DropBrowser` set. -/
def Conversation.drop (s : Conversation Address) : Conversation Address :=
  { s with proxy := { s.proxy with DropBrowser := true } }

/-- The test for a browser connection that is not kept. -/
def Request.closes (r : Request Address) (alivecount : Nat) : Bool :=
  !r.keepAlive || decide (r.requestType ≠ .get) || (decide (alivecount > 99) && !r.waits)

/-- One turn of the loop. -/
def Request.turn (r : Request Address) (s : Conversation Address) :
    Option (Conversation Address × List (Output Address)) :=
  let s :=
    { s with proxy := { s.proxy with DropServer := false }, alivecount := s.alivecount + 1 }
  if s.alivecount > 1 ∧ ¬ r.arrives then some (s.drop, [])
  else if ¬ r.readable then some (s.drop, [])
  else if r.analysed < 0 then
    let (s, page) := r.proxyMessage r.analysed s
    some (s.drop, page)
  else if ¬ r.addressed then
    let (s, page) := r.proxyMessage (-201) s
    some (s.drop, page)
  else
    let s := { s with proxy := { s.proxy with DropBrowser := r.closes s.alivecount } }
    match r.protocol with
    | .http => r.answered inet_aton parent s
    | .ftp =>
      if parent.isSome then r.answered inet_aton parent s
      else
        let (s, page) := r.proxyMessage (-110) s
        some (s.drop, page)
    | .other => some (s.drop, [])

/-- The loop, for any number of turns: it is left when the browser connection is not kept. -/
def serve :
    List (Request Address) → Conversation Address →
    Option (Conversation Address × List (Output Address))
  | [], s => some (s, [])
  | r :: rs, s =>
    if s.proxy.DropBrowser ∨ s.proxy.BrowserDropped then some (s, [])
    else
      (r.turn inet_aton parent s).bind fun (s, outs) =>
        (serve rs s).map fun (s, more) => (s, outs ++ more)

end Loop

/-! ## What a relay sends -/

section Relay

variable {σ : Type} {readBodyPart : σ → Option (Int × Str × σ)} {update : σ → σ}
  {send : List Str → Str → Bool} {ref : Int}

/-- Each piece has the length that is returned with it. -/
def Sized (readBodyPart : σ → Option (Int × Str × σ)) : Prop :=
  ∀ s n b s', readBodyPart s = some (n, b, s') → 0 < n → n = b.length

/-- How the loop ends, with what it has sent. -/
inductive RelaySent (ref : Int) (y : Relay σ) : Int × Relay σ → Prop
  | dropped {y' : Relay σ} (length : 0 < ref → (y'.sent.flatten.length : Int) ≤ ref)
      (dropped : y'.BrowserDropped = true) : RelaySent ref y (-10, y')
  | broken {y' : Relay σ} (length : 0 < ref → (y'.sent.flatten.length : Int) < ref) :
      RelaySent ref y (-75, y')
  | ended {y' : Relay σ} (length : 0 < ref → (y'.sent.flatten.length : Int) ≤ ref)
      (whole : 0 < ref → y'.DropBrowser = false → (y'.sent.flatten.length : Int) = ref)
      (kept : y.DropBrowser = true → y'.DropBrowser = true) : RelaySent ref y (0, y')

/-- The invariant of the loop: what is sent, and the piece in `BodyTemp`, make `ContentLength`. -/
theorem relayLoop_sent (hsized : Sized readBodyPart) (fuel : Nat) (y : Relay σ) (BodyTemp : Str)
    (hlength : y.ContentLength = y.sent.flatten.length + BodyTemp.length)
    (hless : 0 < ref → (y.sent.flatten.length : Int) < ref) {out : Int × Relay σ}
    (h : relayLoop readBodyPart update send ref fuel y BodyTemp = some out) :
    RelaySent ref y out := by
  induction fuel generalizing y BodyTemp with
  | zero => cases h
  | succ fuel ih =>
    obtain ⟨⟨y₁, BodyTemp₁⟩, hdiscard, hturn⟩ := Option.bind_eq_some_iff.mp h
    have hpiece : y₁.sent = y.sent ∧ y₁.DropBrowser = y.DropBrowser ∧
        y₁.ContentLength = y.sent.flatten.length + BodyTemp₁.length ∧
        (0 < ref → y₁.ContentLength ≤ ref) := by
      unfold discard at hdiscard
      split at hdiscard
      · next hmore =>
        dsimp only at hdiscard
        split at hdiscard <;> cases hdiscard
        refine ⟨rfl, rfl, ?_, fun _ => le_rfl⟩
        rw [List.length_take]
        dsimp only
        omega
      · cases hdiscard
        exact ⟨rfl, rfl, hlength, fun _ => by omega⟩
    obtain ⟨hsent, hbrowser, hlength₁, hle⟩ := hpiece
    dsimp only at hturn
    split at hturn
    · cases hturn
      refine .dropped (fun href => ?_) rfl
      have := hle href
      rw [hsent]
      omega
    · have htotal : ((y₁.sent ++ [BodyTemp₁]).flatten.length : Int) = y₁.ContentLength := by
        rw [List.flatten_append, List.length_append, hsent]
        simp [hlength₁]
      split at hturn
      · next hend =>
        cases hturn
        refine .ended (fun href => ?_) (fun _ _ => ?_) fun hdrop => hbrowser.trans hdrop
        · exact htotal.trans_le (hle href)
        · exact htotal.trans hend
      · next hne =>
        obtain ⟨⟨n, b, s'⟩, hr, hturn⟩ := Option.bind_eq_some_iff.mp hturn
        dsimp only at hturn
        split at hturn
        · cases hturn
          refine .broken fun href => ?_
          have := hle href
          dsimp only
          omega
        · split at hturn
          · cases hturn
            refine .ended (fun href => ?_) (fun href hdrop => ?_) fun hdrop => ?_
            · exact htotal.trans_le (hle href)
            · have := hle href
              simp only [Bool.or_eq_false_iff, decide_eq_false_iff_not] at hdrop
              dsimp only
              omega
            · simp [hbrowser, hdrop]
          · next hneg hzero =>
            have hn := hsized _ _ _ _ hr (by omega)
            have hrest := ih _ b (by dsimp only; rw [htotal, ← hn])
              (fun href => by have := hle href; dsimp only; omega) hturn
            cases hrest with
            | dropped length dropped => exact .dropped length dropped
            | broken length => exact .broken length
            | ended length whole kept =>
              exact .ended length whole fun hdrop => kept (hbrowser.trans hdrop)

theorem relay_sent (hsized : Sized readBodyPart) {header : Bool} {fuel : Nat} {y : Relay σ}
    (hsent : y.sent = []) {out : Int × Relay σ}
    (h : relay readBodyPart update send ref header fuel y = some out) :
    out.1 = -74 ∨ (header = false ∧ out.1 = -10) ∨ (header = true ∧ RelaySent ref y out) := by
  obtain ⟨⟨n, b, s'⟩, hr, h⟩ := Option.bind_eq_some_iff.mp h
  dsimp only at h
  split at h
  · cases h
    exact .inl rfl
  · cases header with
    | false =>
      cases h
      exact .inr (.inl ⟨rfl, rfl⟩)
    | true =>
      refine .inr (.inr ⟨rfl, ?_⟩)
      simp only [not_true_eq_false, if_false] at h
      split at h
      · cases h
        refine .ended (fun href => ?_) (fun _ hdrop => by simp_all) fun hdrop => by simp [hdrop]
        dsimp only
        rw [hsent]
        exact href.le
      · next hneg hzero =>
        have hn := hsized _ _ _ _ hr (by omega)
        have hloop := relayLoop_sent hsized fuel _ b (by dsimp only; rw [hsent]; simpa using hn)
          (fun href => by dsimp only; rw [hsent]; exact href) h
        cases hloop with
        | dropped length dropped => exact .dropped length dropped
        | broken length => exact .broken length
        | ended length whole kept =>
          exact .ended length whole fun hdrop => kept (by simp [hdrop])

end Relay

/-! ## What a call sends -/

/-- The pages that are rewritten on their way keep their lengths. -/
def Exchange.KeepsLengths (e : Exchange) : Prop :=
  ∀ calls bodyT, (e.track calls bodyT).1 = (e.track calls bodyT).2.length

theorem readHit_sized {db : Db} {now : Int} {t : Transfer} {file : Str} {part : BodyPart}
    (h : readHit db now t file = some part) (hpos : 0 < part.BodyLength) :
    part.BodyLength = part.bodyT.length := by
  obtain ⟨t', -, rfl⟩ := Option.map_eq_some_iff.mp h
  dsimp only at hpos ⊢
  split at hpos
  · cases hpos
  · next hopen =>
    rw [if_neg hopen]
    split at hpos
    · next hend => rw [if_pos hend]
    · next hend =>
      rw [if_neg hend]
      split at hpos
      · cases hpos
      · next hfail => rw [if_neg hfail]

theorem writeTail_sized {db : Db} {now : Int} {t : Transfer} {file rest bodyT : Str} {part : BodyPart}
    (h : writeTail db now t file rest bodyT = some part) (hpos : 0 < part.BodyLength) :
    part.BodyLength = part.bodyT.length := by
  unfold writeTail nextBlock at h
  dsimp only at h
  split at h
  · split at h
    · cases h
      rfl
    · split at h
      · cases h
        cases hpos
      · obtain ⟨t', -, rfl⟩ := Option.map_eq_some_iff.mp h
        rfl
  · cases h
    rfl

theorem readMiss_sized {db : Db} {now : Int} {t : Transfer} {file : Str} {recv : Option Str}
    {part : BodyPart} (h : readMiss db now t file recv = some part) (hpos : 0 < part.BodyLength) :
    part.BodyLength = part.bodyT.length := by
  obtain ⟨t', -, h⟩ := Option.bind_eq_some_iff.mp h
  split at h
  · cases h
    cases hpos
  · cases h
    cases hpos
  · obtain ⟨loop, -, h⟩ := Option.bind_eq_some_iff.mp h
    cases loop with
    | fits t file body => exact writeTail_sized h hpos
    | overflow t file =>
      cases h
      cases hpos

theorem Exchange.sized {e : Exchange} (hkeeps : e.KeepsLengths) : Sized e.readBodyPart := by
  intro w n b w' h hpos
  unfold Exchange.readBodyPart at h
  dsimp only at h
  split at h
  · cases h
    rfl
  · split at h
    · obtain ⟨part, hpart, heq⟩ := Option.map_eq_some_iff.mp h
      cases heq
      exact readHit_sized hpart hpos
    · have hplain : (if (w.recv.headD (some [])).isSome = true then
            (((w.recv.headD (some [])).getD []).length : Int) else -1) = n →
          (w.recv.headD (some [])).getD [] = b → n = b.length := by
        rintro hn rfl
        split at hn
        · exact hn.symm
        · omega
      split at h
      · split at h
        · cases h
          exact hkeeps _ _
        · dsimp only at h
          cases h
          cases hpos
      · split at h
        · obtain ⟨c, -, heq⟩ := Option.map_eq_some_iff.mp h
          cases heq
          exact hplain rfl rfl
        · split at h
          · obtain ⟨part, hpart, heq⟩ := Option.map_eq_some_iff.mp h
            cases heq
            exact readMiss_sized hpart hpos
          · cases h
            exact hplain rfl rfl

/-- What a call has sent, with its answer and the state it leaves. -/
inductive Replied : Int → Proxy → Reply → Prop
  | silent {answer : Int} {p : Proxy} {r : Reply} (header : r.header = false) (failed : answer ≠ 0) :
      Replied answer p r
  | dropped {p : Proxy} {r : Reply} (part : r.Partial) (dropped : p.BrowserDropped = true) :
      Replied (-10) p r
  | broken {p : Proxy} {r : Reply} (broken : r.Broken) : Replied (-75) p r
  | ended {p : Proxy} {r : Reply} (part : r.Partial) (whole : p.DropBrowser = false → r.Whole) :
      Replied 0 p r

variable {e : Exchange} {p p' : Proxy} {answer : Int} {r : Reply}

/-- What `relayBody` sends. -/
theorem Exchange.replied_of_relay {ref : Int} {y y' : Relay Wire} (href : ref ≠ 0)
    (hlast : ref = -1 → y.DropBrowser = true) (htaken : e.headerTaken = true)
    (h : RelaySent ref y (answer, y')) :
    Replied answer (p.ofRelay y') ⟨e.headerTaken && decide (answer ≠ -74), y'.sent, ref⟩ := by
  rw [htaken]
  cases h with
  | dropped length dropped =>
    exact .dropped ⟨rfl, fun h => length (lt_of_le_of_ne h href.symm)⟩ dropped
  | broken length => exact .broken ⟨rfl, fun h => length (lt_of_le_of_ne h href.symm)⟩
  | ended length whole kept =>
    refine .ended ⟨rfl, fun h => length (lt_of_le_of_ne h href.symm)⟩ fun hdrop =>
      ⟨rfl, fun hunknown => ?_, fun h => whole (lt_of_le_of_ne h href.symm) hdrop⟩
    have htrue : y'.DropBrowser = true := kept (hlast hunknown)
    exact absurd (htrue.symm.trans hdrop) Bool.noConfusion

theorem Exchange.replied_of_deliver (hkeeps : e.KeepsLengths) {ref : Int}
    (hlast : ref = -1 → p.DropBrowser = true) (hcall : e.deliver ref p = some (answer, p'))
    (hreply : e.deliveredReply ref p = some r) : Replied answer p' r := by
  unfold Exchange.deliver at hcall
  unfold Exchange.deliveredReply at hreply
  dsimp only at hcall hreply
  split at hcall
  · next hbody =>
    rw [if_pos hbody] at hreply
    cases hreply
    unfold Exchange.finish at hcall
    split at hcall
    · next htaken =>
      cases hcall
      exact .silent (by simpa using htaken) (by decide)
    · next htaken =>
      cases hcall
      have htaken : e.headerTaken = true := by simpa using htaken
      exact .ended ⟨htaken, fun _ => le_rfl⟩ fun _ =>
        ⟨htaken, (by decide : (0 : Int) ≠ -1), fun _ => rfl⟩
  · next hbody =>
    rw [if_neg hbody] at hreply
    obtain ⟨⟨answer', y⟩, hrelay, heq⟩ := Option.map_eq_some_iff.mp hcall
    cases heq
    rw [hrelay] at hreply
    cases hreply
    have href : ref ≠ 0 := by
      rintro rfl
      exact hbody (by simp [Exchange.noBody])
    rcases relay_sent (e.sized hkeeps) rfl hrelay with hzero | ⟨hheader, hten⟩ | ⟨htaken, hsent⟩
    · dsimp only at hzero
      subst hzero
      exact .silent (by simp) (by decide : (-74 : Int) ≠ 0)
    · dsimp only at hten
      subst hten
      exact .silent (by simp [hheader]) (by decide : (-10 : Int) ≠ 0)
    · exact e.replied_of_relay href hlast htaken hsent

/-- Where the length is not known, the browser connection is not kept. -/
theorem Exchange.drops_of_respond {ref : Int} (h : e.respond p = some (.ok (ref, p')))
    (hlast : ref = -1) : p'.DropBrowser = true := by
  obtain ⟨⟨ok, header, c⟩, -, heq⟩ := Option.map_eq_some_iff.mp h
  dsimp only at heq
  split at heq
  · cases heq
  · split at heq
    · cases heq
    · cases heq
      simp [hlast]

/-- The answers of a call that ends before its response is delivered. -/
theorem Exchange.vet_answer (h : e.vet p = some (.answers answer p')) : answer = -10 := by
  obtain ⟨limits, -, heq⟩ := Option.map_eq_some_iff.mp h
  dsimp only at heq
  split at heq <;> cases heq
  rfl

theorem Exchange.contact_answer (h : e.contact p = .answers answer p') : answer < 0 := by
  unfold Exchange.contact at h
  split at h
  · cases h
    split <;> decide
  · dsimp only at h
    split at h
    · cases h
      decide
    · split at h
      · split at h <;> cases h <;> decide
      · cases h

theorem Exchange.respond_answer (h : e.respond p = some (.error (answer, p'))) : answer < 0 := by
  obtain ⟨⟨ok, header, c⟩, -, heq⟩ := Option.map_eq_some_iff.mp h
  dsimp only at heq
  split at heq
  · cases heq
    decide
  · split at heq <;> cases heq
    decide

/-- **What a call sends**, with its answer. -/
theorem Exchange.replied (hkeeps : e.KeepsLengths) (hcall : e.communicate p = some (answer, p'))
    (hreply : e.reply p = some r) : Replied answer p' r := by
  unfold Exchange.reply Exchange.contacting at hreply
  cases Exchange.ends_of_communicate hcall with
  | vet vet =>
    rw [vet] at hreply
    cases hreply
    exact .silent rfl (by rw [e.vet_answer vet]; decide)
  | contact vet lookUp contact =>
    rw [vet] at hreply
    simp only [Option.bind_some, Part.goes, lookUp, contact] at hreply
    cases hreply
    exact .silent rfl (e.contact_answer contact).ne
  | respond vet lookUp contact respond =>
    rw [vet] at hreply
    simp only [Option.bind_some, Part.goes, lookUp, contact, respond] at hreply
    cases hreply
    exact .silent rfl (e.respond_answer respond).ne
  | deliver vet lookUp contact respond deliver =>
    rw [vet] at hreply
    simp only [Option.bind_some, Part.goes, lookUp, contact, respond] at hreply
    exact e.replied_of_deliver hkeeps (e.drops_of_respond respond) deliver hreply

/-- A call that is repeated has sent nothing. -/
theorem Replied.of_repeats (h : Replied answer p r) (hrepeats : e.repeats answer) :
    r.header = false := by
  cases h with
  | silent header failed => exact header
  | dropped part dropped => rcases hrepeats with ⟨h, -⟩ | h | h <;> cases h
  | broken broken => rcases hrepeats with ⟨h, -⟩ | h | h <;> cases h
  | ended part whole => rcases hrepeats with ⟨h, -⟩ | h | h <;> cases h

/-! ## What the browser gets -/

/-- Sent to the browser. -/
def Output.toBrowser : Output Address → Bool
  | .header .. => false
  | _ => true

/-- What of it is sent to the browser. -/
def browserPart (outs : List (Output Address)) : List (Output Address) := outs.filter Output.toBrowser

/-- What a browser connection may carry: whole replies, and at its end a reply that is cut short or
a page. A page may follow a reply only if its body breaks off. -/
inductive Framed {Address : Type*} : List (Output Address) → Prop
  | nothing : Framed []
  | reply {r : Reply} {outs : List (Output Address)} (whole : r.Whole) (rest : Framed outs) :
      Framed (.reply r :: outs)
  | last {r : Reply} (part : r.Partial) : Framed [.reply r]
  | broken {r : Reply} (answer : Int) {texts : List Str} (broken : r.Broken) :
      Framed [.reply r, .page answer texts]
  | page (answer : Int) (texts : List Str) : Framed [.page answer texts]

/-- The loop is left at its next turn. -/
def Conversation.Gone (s : Conversation Address) : Prop :=
  s.proxy.DropBrowser = true ∨ s.proxy.BrowserDropped = true

/-- What a request with its repeats has sent to the browser. -/
inductive Handed {Address : Type*} : Int → Proxy → List (Output Address) → Prop
  | silent {answer : Int} {p : Proxy} (failed : answer ≠ 0) : Handed answer p []
  | reply {answer : Int} {p : Proxy} {r : Reply} (taken : r.header = true)
      (replied : Replied answer p r) : Handed answer p [.reply r]

/-- `DropServer` has no part in it. -/
theorem Handed.of_flags {outs : List (Output Address)} (h : Handed answer p outs)
    (hbrowser : p'.DropBrowser = p.DropBrowser) (hdropped : p'.BrowserDropped = p.BrowserDropped) :
    Handed answer p' outs := by
  cases h with
  | silent failed => exact .silent failed
  | reply taken replied =>
    refine .reply taken ?_
    cases replied with
    | silent header failed => exact .silent header failed
    | dropped part dropped => exact .dropped part (hdropped.trans dropped)
    | broken broken => exact .broken broken
    | ended part whole => exact .ended part fun h => whole (hbrowser.symm.trans h)

/-- What is left behind a turn: nothing more comes, or a whole reply was sent. -/
def Turned (s : Conversation Address) (outs : List (Output Address)) : Prop :=
  (s.Gone ∧ Framed outs) ∨ ∃ r : Reply, r.Whole ∧ outs = [.reply r]

section Turn

variable {inet_aton : Str → Option Address} {parent : Option (Str × Int)} {q : Request Address}
  {s s' : Conversation Address} {outs : List (Output Address)}

/-- Every call of a request keeps the lengths of what it rewrites. -/
def Request.KeepsLengths (q : Request Address) : Prop :=
  ∀ c ∈ q.call :: q.repeats, c.exchange.KeepsLengths

theorem browserPart_append (outs more : List (Output Address)) :
    browserPart (outs ++ more) = browserPart outs ++ browserPart more :=
  List.filter_append outs more

theorem browserPart_forwarded (q : Request Address) (e : Exchange) (address : PeerAddress Address)
    (s : Conversation Address) : browserPart (q.forwarded e address s) = [] := by
  unfold Request.forwarded
  split
  · split <;> rfl
  · rfl

theorem communicate_sends {c : HostCall Address} (hkeeps : c.exchange.KeepsLengths)
    (h : q.communicate inet_aton parent c s = some (answer, s', outs)) :
    Handed answer s'.proxy (browserPart outs) ∧
      ((q.facing parent c.exchange s').repeats answer → browserPart outs = []) := by
  obtain ⟨address, -, h⟩ := Option.bind_eq_some_iff.mp h
  obtain ⟨⟨answer', p'⟩, hcall, h⟩ := Option.bind_eq_some_iff.mp h
  obtain ⟨reply, hreply, heq⟩ := Option.map_eq_some_iff.mp h
  cases heq
  have hreplied := (q.exchange parent c.exchange address s).replied hkeeps hcall hreply
  rw [browserPart_append, browserPart_forwarded, List.nil_append]
  cases hheader : reply.header with
  | true =>
    refine ⟨.reply hheader hreplied, fun hrepeats => ?_⟩
    rw [hreplied.of_repeats hrepeats] at hheader
    cases hheader
  | false =>
    refine ⟨.silent ?_, fun _ => rfl⟩
    cases hreplied with
    | silent header failed => exact failed
    | dropped part dropped => decide
    | broken broken => decide
    | ended part whole =>
      rw [part.1] at hheader
      cases hheader

/-- The repeats of a call that has sent `before`, and nothing if it is repeated. -/
theorem repeatCalls_sends {calls : List (HostCall Address)} {e' : Exchange} {retries : Nat}
    {answer' : Int} {before more : List (Output Address)}
    (hkeeps : ∀ c ∈ calls, c.exchange.KeepsLengths) (hbefore : Handed answer s.proxy before)
    (hsilent : (q.facing parent e s).repeats answer → before = [])
    (h : q.repeatCalls inet_aton parent calls e retries answer s = some (e', answer', s', more)) :
    Handed answer' s'.proxy (before ++ browserPart more) := by
  induction calls generalizing e retries answer s before more with
  | nil =>
    unfold Request.repeatCalls at h
    split at h
    · cases h
    · cases h
      simpa [browserPart] using hbefore
  | cons c calls ih =>
    unfold Request.repeatCalls at h
    split at h
    · next hrepeats =>
      obtain ⟨⟨answer₁, s₁, outs⟩, hcall, h⟩ := Option.bind_eq_some_iff.mp h
      obtain ⟨hsends, hrepeat⟩ := communicate_sends (hkeeps c List.mem_cons_self) hcall
      rw [hsilent hrepeats, List.nil_append]
      dsimp only at h
      generalize hs₂ : (if answer₁ = 0 then
        { s₁ with proxy := { s₁.proxy with DropServer := false } } else s₁) = s₂ at h
      have hsends₂ : Handed answer₁ s₂.proxy (browserPart outs) := by
        refine hsends.of_flags ?_ ?_ <;> rw [← hs₂] <;> split <;> rfl
      split at h
      · cases h
        exact hsends₂
      · obtain ⟨⟨e₃, answer₃, s₃, more₃⟩, hrest, heq⟩ := Option.map_eq_some_iff.mp h
        cases heq
        rw [browserPart_append]
        exact ih (fun c' hc' => hkeeps c' (List.mem_cons_of_mem c hc')) hsends₂ hrepeat hrest
    · cases h
      simpa [browserPart] using hbefore

theorem Reply.Broken.part {r : Reply} (h : r.Broken) : r.Partial := ⟨h.1, fun hn => (h.2 hn).le⟩

/-- A page for an answer, behind what was sent. -/
theorem proxyMessage_framed {before page : List (Output Address)} (hbefore : Handed answer s.proxy before)
    (hfailed : answer ≠ 0) (h : q.proxyMessage answer s = (s', page)) :
    Framed (before ++ browserPart page) := by
  unfold Request.proxyMessage at h
  split at h
  · cases h
    rw [show browserPart [] = [] from rfl, List.append_nil]
    cases hbefore with
    | silent failed => exact .nothing
    | reply taken replied =>
      cases replied with
      | silent header failed =>
        rw [header] at taken
        cases taken
      | dropped part dropped => exact .last part
      | broken broken => exact .last broken.part
      | ended part whole => exact .last part
  · next hdropped =>
    cases h
    cases hbefore with
    | silent failed => exact .page _ _
    | reply taken replied =>
      cases replied with
      | silent header failed =>
        rw [header] at taken
        cases taken
      | dropped part dropped => exact absurd dropped hdropped
      | broken broken => exact .broken _ broken
      | ended part whole => exact absurd rfl hfailed

theorem conclude_turned {before page : List (Output Address)} (hbefore : Handed answer s.proxy before)
    (h : q.conclude e answer s = (s', page)) : Turned s' (before ++ browserPart page) := by
  unfold Request.conclude at h
  dsimp only at h
  generalize hs₁ : (if s.proxy.DropServer = true ∨ s.proxy.DropBrowser = true ∨
    s.proxy.BrowserDropped = true then s.closeUpdate e else s) = s₁ at h
  have hbefore₁ : Handed answer s₁.proxy before := by
    refine hbefore.of_flags ?_ ?_ <;> rw [← hs₁] <;> split <;> rfl
  split at h
  · next hfailed =>
    cases h
    exact .inl ⟨.inl rfl, proxyMessage_framed hbefore₁ hfailed rfl⟩
  · next hzero =>
    cases h
    rw [show browserPart [] = [] from rfl, List.append_nil]
    cases hbefore₁ with
    | silent failed => exact absurd failed hzero
    | reply taken replied =>
      cases replied with
      | silent header failed => exact absurd failed hzero
      | dropped part dropped => exact absurd (by decide) hzero
      | broken broken => exact absurd (by decide) hzero
      | ended part whole =>
        cases hdrop : s'.proxy.DropBrowser with
        | true => exact .inl ⟨.inl hdrop, .last part⟩
        | false => exact .inr ⟨_, whole hdrop, rfl⟩

theorem answered_turned (hkeeps : q.KeepsLengths)
    (h : q.answered inet_aton parent s = some (s', outs)) : Turned s' (browserPart outs) := by
  obtain ⟨⟨answer₁, s₁, first⟩, hcall, h⟩ := Option.bind_eq_some_iff.mp h
  obtain ⟨⟨e₂, answer₂, s₂, more⟩, hmore, heq⟩ := Option.map_eq_some_iff.mp h
  cases heq
  obtain ⟨hfirst, hsilent⟩ := communicate_sends (hkeeps _ List.mem_cons_self) hcall
  have hsends :=
    repeatCalls_sends (fun c hc => hkeeps c (List.mem_cons_of_mem _ hc)) hfirst hsilent hmore
  rw [browserPart_append, browserPart_append]
  exact conclude_turned hsends rfl

/-- A page where nothing else is sent. -/
theorem proxyMessage_alone (q : Request Address) (answer : Int) (s : Conversation Address) :
    Framed (browserPart (q.proxyMessage answer s).2) := by
  unfold Request.proxyMessage
  split
  · exact .nothing
  · exact .page _ _

theorem turn_turned (hkeeps : q.KeepsLengths) (h : q.turn inet_aton parent s = some (s', outs)) :
    Turned s' (browserPart outs) := by
  unfold Request.turn at h
  dsimp only at h
  split at h
  · cases h
    exact .inl ⟨.inl rfl, .nothing⟩
  · split at h
    · cases h
      exact .inl ⟨.inl rfl, .nothing⟩
    · split at h
      · cases h
        exact .inl ⟨.inl rfl, proxyMessage_alone q _ _⟩
      · split at h
        · cases h
          exact .inl ⟨.inl rfl, proxyMessage_alone q _ _⟩
        · split at h
          · exact answered_turned hkeeps h
          · split at h
            · exact answered_turned hkeeps h
            · cases h
              exact .inl ⟨.inl rfl, proxyMessage_alone q _ _⟩
          · cases h
            exact .inl ⟨.inl rfl, .nothing⟩

end Turn

/-- **The browser can tell the replies apart**: what a browser connection carries, over any number of
requests with their repeats, is a sequence of whole replies; only the last one may be cut short, and
only then a page follows it. -/
theorem serve_framed (inet_aton : Str → Option Address) (parent : Option (Str × Int))
    (requests : List (Request Address)) (hkeeps : ∀ q ∈ requests, q.KeepsLengths)
    (s s' : Conversation Address) (outs : List (Output Address))
    (h : serve inet_aton parent requests s = some (s', outs)) : Framed (browserPart outs) := by
  induction requests generalizing s outs with
  | nil =>
    cases h
    exact .nothing
  | cons q requests ih =>
    unfold serve at h
    split at h
    · cases h
      exact .nothing
    · obtain ⟨⟨s₁, first⟩, hturn, h⟩ := Option.bind_eq_some_iff.mp h
      obtain ⟨⟨s₂, more⟩, hmore, heq⟩ := Option.map_eq_some_iff.mp h
      cases heq
      rw [browserPart_append]
      rcases turn_turned (hkeeps q List.mem_cons_self) hturn with ⟨hgone, hframed⟩ | ⟨r, hwhole, hr⟩
      · have hend : more = [] := by
          cases requests with
          | nil =>
            cases hmore
            rfl
          | cons q' requests =>
            unfold serve at hmore
            unfold Conversation.Gone at hgone
            rw [if_pos hgone] at hmore
            cases hmore
            rfl
        rw [hend, show browserPart [] = [] from rfl, List.append_nil]
        exact hframed
      · rw [hr]
        exact .reply hwhole
          (ih (fun q' hq' => hkeeps q' (List.mem_cons_of_mem q hq')) s₁ more hmore)

/-- A request that is not cached, answered with `ab`. -/
def plainExchange : Exchange :=
  { db := succeeds, header := ['G', 'E', 'T'], requestType := .get, browserLength := -1
    sameHost := true, parent := false, clientBody := .done, opens := true
    asked := { plugin := none, found := none, directories := [], selected := none }
    connects := true, takesHeader := true, read := (true, contentLength ++ ['2'])
    again := (false, []), analysed := ⟨200, 2, true, false⟩, config := fun _ => 0
    unexpected := false, recv := [some ['a', 'b']], track := fun _ piece => (piece.length, piece)
    md5 := id, identified := none, file := [], clock := fun _ => 0, fuel := 2
    headerTaken := true, send := fun _ _ => true }

def plainRequest : Request Nat :=
  { arrives := true, readable := true, analysed := 0, addressed := true, keepAlive := true
    waits := false, requestType := .get, protocol := .http, Host := ['h'], Port := 80
    CompleteRequest := ['h'], UserAgent := [], call := ⟨plainExchange, some ⟨AF_INET, [1]⟩⟩
    repeats := [], takes := fun _ _ => true }

/-- The server breaks off in the second body. -/
def brokenRequest : Request Nat :=
  { plainRequest with
    call := ⟨{ plainExchange with recv := [some ['a'], none] }, some ⟨AF_INET, [1]⟩⟩ }

theorem serve_framed_broken :
    ∃ s outs, serve (fun _ => none) none [plainRequest, brokenRequest] (.new 0) = some (s, outs) ∧
      browserPart outs = [.reply ⟨true, [['a', 'b']], 2⟩, .reply ⟨true, [['a']], 2⟩,
        .page (-75) ((report (-75) ['h'] ['h']).texts [] .get)] ∧ Framed (browserPart outs) := by
  have hserve : (serve (fun _ => none) none [plainRequest, brokenRequest] (.new 0)).map
      (browserPart ∘ Prod.snd) =
      some [.reply ⟨true, [['a', 'b']], 2⟩, .reply ⟨true, [['a']], 2⟩,
        .page (-75) ((report (-75) ['h'] ['h']).texts [] .get)] := by decide +kernel
  obtain ⟨⟨s, outs⟩, hrun, houts⟩ := Option.map_eq_some_iff.mp hserve
  have hkeeps : ∀ q ∈ [plainRequest, brokenRequest], q.KeepsLengths := by
    simp [Request.KeepsLengths, Exchange.KeepsLengths, plainRequest, brokenRequest, plainExchange]
  exact ⟨s, outs, hrun, houts, serve_framed _ none _ hkeeps _ s outs hrun⟩

/-! ## Where the headers go -/

section Address

variable {inet_aton : Str → Option Address} {parent : Option (Str × Int)}
  {names : Str → Address → Prop} {q : Request Address} {s s' : Conversation Address}
  {outs : List (Output Address)}

/-- The hosts of all calls for the request are found; `names` says which addresses a host has. -/
def Request.Finds (inet_aton : Str → Option Address) (parent : Option (Str × Int))
    (names : Str → Address → Prop) (q : Request Address) : Prop :=
  ∀ c ∈ q.call :: q.repeats,
    PeerAddress.Finds inet_aton names ⟨(q.server parent).1, (q.server parent).2, c.answer⟩

/-- The peer is an address of the server, and its port. -/
def Reaches (names : Str → Address → Prop) (server : Str × Int) (peer : Address × Int) : Prop :=
  names server.1 peer.1 ∧ peer.2 = server.2

/-- The hosts so far were found. A socket belongs to the server connection, and this is one to the
host it is remembered for, or to the parent. -/
structure Conversation.Tied (parent : Option (Str × Int)) (names : Str → Address → Prop)
    (s : Conversation Address) : Prop where
  found : s.address.Found names
  connected : ∀ peer, s.peer = some peer → s.proxy.ServerConnected = true
  reaches : ∀ peer, s.peer = some peer →
    Reaches names (parent.getD (s.ConnectedHost, s.ConnectedPort)) peer

/-- Each header of `outs` goes where its request says. -/
def Addressed (parent : Option (Str × Int)) (names : Str → Address → Prop)
    (outs : List (Output Address)) : Prop :=
  ∀ peer Host Port, .header peer Host Port ∈ outs → Reaches names (parent.getD (Host, Port)) peer

theorem addressed_nil : Addressed parent names ([] : List (Output Address)) :=
  fun _ _ _ h => absurd h List.not_mem_nil

theorem addressed_append {more : List (Output Address)} (h : Addressed parent names outs)
    (hmore : Addressed parent names more) : Addressed parent names (outs ++ more) := by
  intro peer Host Port hmem
  rcases List.mem_append.mp hmem with hmem | hmem
  · exact h peer Host Port hmem
  · exact hmore peer Host Port hmem

/-- A server connection that is used again is one for the same host, or the parent. -/
theorem contacting_serverConnected (h : e.contacting p = some p')
    (hconnected : p'.ServerConnected = true) :
    p.ServerConnected = true ∧ (e.parent = true ∨ e.sameHost = true) := by
  obtain ⟨p₁, hvet, hlookUp⟩ := Option.bind_eq_some_iff.mp h
  obtain ⟨part, hpart, hgoes⟩ := Option.bind_eq_some_iff.mp hvet
  have hsame : p'.ServerConnected = p₁.ServerConnected := by
    unfold Exchange.lookUp at hlookUp
    split at hlookUp
    · obtain ⟨c, -, rfl⟩ := Option.map_eq_some_iff.mp hlookUp
      rfl
    · cases hlookUp
      rfl
  obtain ⟨limits, -, heq⟩ := Option.map_eq_some_iff.mp hpart
  dsimp only at heq
  split at heq
  · rw [← heq] at hgoes
    cases hgoes
  · rw [← heq] at hgoes
    cases hgoes
    rw [hsame] at hconnected
    unfold Exchange.changeHost at hconnected
    split at hconnected
    · cases hconnected
    · next hkept =>
      refine ⟨hconnected, ?_⟩
      by_contra hother
      rw [not_or] at hother
      exact hkept ⟨hconnected, hother⟩

/-- Behind a contact the server connection stays. -/
theorem contact_serverConnected {part : Part} (h : e.contact p = part)
    (hpasses : p.ServerConnected = true ∨ e.connects = true) : part.state.ServerConnected = true := by
  unfold Exchange.contact at h
  rw [if_neg (by rcases hpasses with h | h <;> simp [h])] at h
  dsimp only at h
  split at h
  · rw [← h]
    rfl
  · split at h
    · split at h <;> rw [← h] <;> rfl
    · rw [← h]
      rfl

theorem respond_serverConnected {out : Except (Int × Proxy) (Int × Proxy)}
    (h : e.respond p = some out) :
    (match out with | .error out => out.2 | .ok out => out.2).ServerConnected =
      p.ServerConnected := by
  obtain ⟨⟨ok, header, c⟩, -, heq⟩ := Option.map_eq_some_iff.mp h
  dsimp only at heq
  split at heq
  · cases heq
    rfl
  · split at heq <;> cases heq <;> rfl

theorem deliver_serverConnected {ref : Int} (h : e.deliver ref p = some (answer, p')) :
    p'.ServerConnected = p.ServerConnected := by
  unfold Exchange.deliver at h
  dsimp only at h
  split at h
  · unfold Exchange.finish at h
    split at h <;> cases h <;> rfl
  · obtain ⟨⟨answer', y⟩, -, heq⟩ := Option.map_eq_some_iff.mp h
    cases heq
    rfl

/-- A call that has come to a socket keeps its server connection. -/
theorem communicate_serverConnected (h : e.communicate p = some (answer, p'))
    (hpasses : ∀ p₂, e.contacting p = some p₂ → p₂.ServerConnected = true ∨ e.connects = true)
    (hvet : e.contacting p = none → p.ServerConnected = true) : p'.ServerConnected = true := by
  have hcontacting : ∀ {p₁ p₂ : Proxy}, e.vet p = some (.goesOn p₁) → e.lookUp p₁ = some p₂ →
      e.contacting p = some p₂ := by
    intro p₁ p₂ hvet hlookUp
    rw [Exchange.contacting, hvet]
    exact hlookUp
  cases Exchange.ends_of_communicate h with
  | vet vet =>
    have hp := hvet (by rw [Exchange.contacting, vet]; rfl)
    obtain ⟨limits, -, heq⟩ := Option.map_eq_some_iff.mp vet
    dsimp only at heq
    split at heq <;> cases heq
    exact hp
  | contact vet lookUp contact =>
    exact contact_serverConnected contact (hpasses _ (hcontacting vet lookUp))
  | respond vet lookUp contact respond =>
    have hp₃ := contact_serverConnected contact (hpasses _ (hcontacting vet lookUp))
    exact (respond_serverConnected respond).trans hp₃
  | deliver vet lookUp contact respond deliver =>
    have hp₃ := contact_serverConnected contact (hpasses _ (hcontacting vet lookUp))
    exact (deliver_serverConnected deliver).trans ((respond_serverConnected respond).trans hp₃)

variable {c : HostCall Address} {address : PeerAddress Address}

/-- The address of a call: it is kept for a server connection that is used again, or for a hit, and
else it is one of the server. -/
theorem addressAt_found (hfound : s.address.Found names)
    (hfinds : PeerAddress.Finds inet_aton names
      ⟨(q.server parent).1, (q.server parent).2, c.answer⟩)
    (h : q.addressAt inet_aton parent c s = some address) :
    address.Found names ∧
      ∀ p, (q.exchange parent c.exchange address s).contacting s.proxy = some p →
        ¬ p.ServerConnected = true → ¬ p.ToServer.hit = true →
          Reaches names (q.server parent) (address.sin_addr, address.sin_port) := by
  change address.Found names ∧ ∀ p, (q.facing parent c.exchange s).contacting s.proxy = some p → _
  unfold Request.addressAt at h
  cases hp : (q.facing parent c.exchange s).contacting s.proxy with
  | none =>
    rw [hp] at h
    cases h
    exact ⟨hfound, fun _ h => Option.noConfusion rfl (heq_of_eq h)⟩
  | some p =>
    rw [hp] at h
    dsimp only at h
    split at h
    · next hkept =>
      cases h
      refine ⟨hfound, fun p' heq hnew hmiss => ?_⟩
      cases heq
      exact absurd hkept (not_or.mpr ⟨hnew, hmiss⟩)
    · obtain ⟨⟨ok, address'⟩, hset, heq⟩ := Option.map_eq_some_iff.mp h
      cases heq
      obtain ⟨hfound', hname, hport⟩ := PeerAddress.setDomainAndPort_finds inet_aton hfound hfinds hset
      exact ⟨hfound', fun _ _ _ _ => ⟨hname, hport⟩⟩

/-- The socket of a call goes where the request says. -/
theorem peerAt_reaches {peer : Address × Int} (htied : s.Tied parent names)
    (haddress : ∀ p, (q.exchange parent e address s).contacting s.proxy = some p →
      ¬ p.ServerConnected = true → ¬ p.ToServer.hit = true →
        Reaches names (q.server parent) (address.sin_addr, address.sin_port))
    (h : (q.exchange parent e address s).peerAt address s = some peer)
    (hcontacting : (q.exchange parent e address s).contacting s.proxy ≠ none) :
    Reaches names (q.server parent) peer := by
  obtain ⟨p, hp⟩ := Option.ne_none_iff_exists'.mp hcontacting
  unfold Exchange.peerAt at h
  rw [hp] at h
  dsimp only at h
  split at h
  · next hconnected =>
    obtain ⟨-, hsame⟩ := contacting_serverConnected hp hconnected
    have hreaches := htied.reaches peer h
    unfold Request.server
    cases parent with
    | some server' => exact hreaches
    | none =>
      rcases hsame with hparent | hhost
      · cases hparent
      · obtain ⟨hhost, hport⟩ := of_decide_eq_true hhost
        rw [Option.getD_none, hhost, hport]
        exact hreaches
  · next hnew =>
    split at h
    · next hconnects =>
      cases h
      exact haddress p hp hnew hconnects.2.1
    · cases h

theorem forwarded_addressed (htied : s.Tied parent names)
    (haddress : ∀ p, (q.exchange parent e address s).contacting s.proxy = some p →
      ¬ p.ServerConnected = true → ¬ p.ToServer.hit = true →
        Reaches names (q.server parent) (address.sin_addr, address.sin_port)) :
    Addressed parent names (q.forwarded (q.exchange parent e address s) address s) := by
  intro peer Host Port hmem
  unfold Request.forwarded at hmem
  split at hmem
  · next peer' hpeer =>
    split at hmem
    · next hforwards =>
      obtain ⟨rfl, rfl, rfl⟩ : peer = peer' ∧ Host = q.Host ∧ Port = q.Port := by
        simpa using hmem
      refine peerAt_reaches htied haddress hpeer fun hnone => ?_
      unfold Exchange.forwards at hforwards
      rw [hnone] at hforwards
      cases hforwards
    · cases hmem
  · cases hmem

theorem communicate_tied (htied : s.Tied parent names)
    (hfinds : PeerAddress.Finds inet_aton names
      ⟨(q.server parent).1, (q.server parent).2, c.answer⟩)
    (h : q.communicate inet_aton parent c s = some (answer, s', outs)) :
    s'.Tied parent names ∧ Addressed parent names outs := by
  obtain ⟨address, hat, h⟩ := Option.bind_eq_some_iff.mp h
  obtain ⟨⟨answer', p'⟩, hcall, h⟩ := Option.bind_eq_some_iff.mp h
  obtain ⟨reply, -, heq⟩ := Option.map_eq_some_iff.mp h
  cases heq
  obtain ⟨hfound, haddress⟩ := addressAt_found htied.found hfinds hat
  refine ⟨?_, addressed_append (forwarded_addressed htied haddress) ?_⟩
  · suffices hpeer : ∀ peer, (q.exchange parent c.exchange address s).peerAt address s = some peer →
        p'.ServerConnected = true ∧ Reaches names
          (parent.getD ((q.connected parent (q.exchange parent c.exchange address s) s).1,
            (q.connected parent (q.exchange parent c.exchange address s) s).2)) peer from
      ⟨hfound, fun peer h => (hpeer peer h).1, fun peer h => (hpeer peer h).2⟩
    intro peer hpeer
    have hreaches := peerAt_reaches htied haddress hpeer
    generalize q.exchange parent c.exchange address s = e₁ at hcall hpeer hreaches ⊢
    unfold Exchange.peerAt at hpeer
    unfold Request.connected
    cases hp : e₁.contacting s.proxy with
    | none =>
      rw [hp] at hpeer
      have hconnected := htied.connected peer hpeer
      exact ⟨communicate_serverConnected hcall (by simp [hp]) fun _ => hconnected,
        htied.reaches peer hpeer⟩
    | some p =>
      rw [hp] at hpeer
      dsimp only at hpeer ⊢
      split at hpeer
      · next hold =>
        refine ⟨communicate_serverConnected hcall (fun p₂ hp₂ => ?_) (by simp [hp]), ?_⟩
        · rw [hp] at hp₂
          cases hp₂
          exact .inl hold
        · rw [if_neg (by simp [hold])]
          exact htied.reaches peer hpeer
      · next hnew =>
        split at hpeer
        · next hconnects =>
          refine ⟨communicate_serverConnected hcall (fun _ _ => .inr hconnects.2.2)
            (by simp [hp]), ?_⟩
          have hserver := hreaches (by simp [hp])
          unfold Request.server at hserver
          cases parent with
          | some server' => exact hserver
          | none =>
            rw [if_pos ⟨hnew, rfl, .inr (.inr hconnects.2.2)⟩]
            exact hserver
        · cases hpeer
  · intro peer Host Port hmem
    split at hmem <;> simp at hmem

theorem tied_closeUpdate (e : Exchange) (htied : s.Tied parent names) :
    (s.closeUpdate e).Tied parent names :=
  ⟨htied.found, fun _ h => Option.noConfusion rfl (heq_of_eq h),
    fun _ h => Option.noConfusion rfl (heq_of_eq h)⟩

/-- What the loop does with the flags changes nothing. -/
theorem tied_flags {p : Proxy} {alivecount : Nat} (htied : s.Tied parent names)
    (hsame : p.ServerConnected = s.proxy.ServerConnected) :
    ({ s with proxy := p, alivecount } : Conversation Address).Tied parent names :=
  ⟨htied.found, fun peer h => hsame.trans (htied.connected peer h), htied.reaches⟩

theorem repeatCalls_tied {calls : List (HostCall Address)} {e' : Exchange} {retries : Nat}
    {answer' : Int} {more : List (Output Address)} (htied : s.Tied parent names)
    (hfinds : ∀ c ∈ calls, PeerAddress.Finds inet_aton names
      ⟨(q.server parent).1, (q.server parent).2, c.answer⟩)
    (h : q.repeatCalls inet_aton parent calls e retries answer s = some (e', answer', s', more)) :
    s'.Tied parent names ∧ Addressed parent names more := by
  induction calls generalizing e retries answer s more with
  | nil =>
    unfold Request.repeatCalls at h
    split at h
    · cases h
    · cases h
      exact ⟨htied, addressed_nil⟩
  | cons c calls ih =>
    unfold Request.repeatCalls at h
    split at h
    · obtain ⟨⟨answer₁, s₁, outs⟩, hcall, h⟩ := Option.bind_eq_some_iff.mp h
      obtain ⟨htied₁, houts⟩ :=
        communicate_tied (tied_closeUpdate e htied) (hfinds c List.mem_cons_self) hcall
      dsimp only at h
      generalize hs₂ : (if answer₁ = 0 then
        { s₁ with proxy := { s₁.proxy with DropServer := false } } else s₁) = s₂ at h
      have htied₂ : s₂.Tied parent names := by
        rw [← hs₂]
        split
        · exact tied_flags htied₁ rfl
        · exact htied₁
      split at h
      · cases h
        exact ⟨htied₂, houts⟩
      · obtain ⟨⟨e₃, answer₃, s₃, more₃⟩, hrest, heq⟩ := Option.map_eq_some_iff.mp h
        cases heq
        obtain ⟨htied₃, hmore⟩ := ih htied₂ (fun c' hc' => hfinds c' (List.mem_cons_of_mem c hc')) hrest
        exact ⟨htied₃, addressed_append houts hmore⟩
    · cases h
      exact ⟨htied, addressed_nil⟩

/-- A page goes to the browser, and changes nothing. -/
theorem proxyMessage_same (q : Request Address) (answer : Int) (s : Conversation Address) :
    (q.proxyMessage answer s).1 = s := by
  unfold Request.proxyMessage
  split <;> rfl

theorem proxyMessage_addressed (q : Request Address) (answer : Int) (s : Conversation Address) :
    Addressed parent names (q.proxyMessage answer s).2 := by
  unfold Request.proxyMessage
  split
  · exact addressed_nil
  · intro _ _ _ h
    simp at h

theorem conclude_tied {page : List (Output Address)} (htied : s.Tied parent names)
    (h : q.conclude e answer s = (s', page)) :
    s'.Tied parent names ∧ Addressed parent names page := by
  unfold Request.conclude at h
  dsimp only at h
  generalize hs₁ : (if s.proxy.DropServer = true ∨ s.proxy.DropBrowser = true ∨
    s.proxy.BrowserDropped = true then s.closeUpdate e else s) = s₁ at h
  have htied₁ : s₁.Tied parent names := by
    rw [← hs₁]
    split
    · exact tied_closeUpdate e htied
    · exact htied
  split at h
  · cases h
    refine ⟨?_, proxyMessage_addressed q answer s₁⟩
    rw [proxyMessage_same]
    exact tied_flags htied₁ rfl
  · cases h
    exact ⟨htied₁, addressed_nil⟩

theorem answered_tied (htied : s.Tied parent names) (hfinds : q.Finds inet_aton parent names)
    (h : q.answered inet_aton parent s = some (s', outs)) :
    s'.Tied parent names ∧ Addressed parent names outs := by
  obtain ⟨⟨answer₁, s₁, first⟩, hcall, h⟩ := Option.bind_eq_some_iff.mp h
  obtain ⟨⟨e₂, answer₂, s₂, more⟩, hmore, heq⟩ := Option.map_eq_some_iff.mp h
  cases heq
  obtain ⟨htied₁, hfirst⟩ := communicate_tied htied (hfinds _ List.mem_cons_self) hcall
  obtain ⟨htied₂, hmore⟩ :=
    repeatCalls_tied htied₁ (fun c hc => hfinds c (List.mem_cons_of_mem _ hc)) hmore
  have hconclude : q.conclude e₂ answer₂ s₂ = ((q.conclude e₂ answer₂ s₂).1, _) := rfl
  obtain ⟨htied₃, hpage⟩ := conclude_tied htied₂ hconclude
  exact ⟨htied₃, addressed_append (addressed_append hfirst hmore) hpage⟩

theorem page_tied (q : Request Address) (answer : Int) (htied : s.Tied parent names) :
    (q.proxyMessage answer s).1.drop.Tied parent names ∧
      Addressed parent names (q.proxyMessage answer s).2 := by
  refine ⟨?_, proxyMessage_addressed q answer s⟩
  rw [proxyMessage_same]
  exact tied_flags htied rfl

theorem turn_tied (htied : s.Tied parent names) (hfinds : q.Finds inet_aton parent names)
    (h : q.turn inet_aton parent s = some (s', outs)) :
    s'.Tied parent names ∧ Addressed parent names outs := by
  have hstart : ∀ DropBrowser : Bool, ({ s with
      proxy := { s.proxy with DropServer := false, DropBrowser }
      alivecount := s.alivecount + 1 } : Conversation Address).Tied parent names :=
    fun _ => tied_flags htied rfl
  unfold Request.turn at h
  dsimp only at h
  split at h
  · cases h
    exact ⟨hstart true, addressed_nil⟩
  · split at h
    · cases h
      exact ⟨hstart true, addressed_nil⟩
    · split at h
      · cases h
        exact page_tied q _ (hstart s.proxy.DropBrowser)
      · split at h
        · cases h
          exact page_tied q _ (hstart s.proxy.DropBrowser)
        · split at h
          · exact answered_tied (hstart _) hfinds h
          · split at h
            · exact answered_tied (hstart _) hfinds h
            · cases h
              exact page_tied q _ (hstart _)
          · cases h
            exact ⟨hstart true, addressed_nil⟩

end Address

/-- **No request reaches another host**: whatever the requests, their repeats and what they meet, the
header of a request is sent to an address of the server it names, or of the parent proxy, if all these
servers are found. -/
theorem serve_addressed (inet_aton : Str → Option Address) (parent : Option (Str × Int))
    (names : Str → Address → Prop) (requests : List (Request Address))
    (hfinds : ∀ q ∈ requests, q.Finds inet_aton parent names) (sin_addr : Address)
    (s' : Conversation Address) (outs : List (Output Address))
    (h : serve inet_aton parent requests (.new sin_addr) = some (s', outs)) (peer : Address × Int)
    (Host : Str) (Port : Int) (hsent : .header peer Host Port ∈ outs) :
    names (parent.getD (Host, Port)).1 peer.1 ∧ peer.2 = (parent.getD (Host, Port)).2 := by
  have hnew : (Conversation.new sin_addr).Tied parent names :=
    ⟨⟨fun hlast => absurd rfl hlast, fun _ h => Option.noConfusion rfl (heq_of_eq h),
        fun _ _ h => Option.noConfusion rfl (heq_of_eq h)⟩,
      fun _ h => Option.noConfusion rfl (heq_of_eq h),
      fun _ h => Option.noConfusion rfl (heq_of_eq h)⟩
  generalize Conversation.new sin_addr = s at h hnew
  suffices Addressed parent names outs from this peer Host Port hsent
  clear hsent
  induction requests generalizing s outs with
  | nil =>
    cases h
    exact addressed_nil
  | cons q requests ih =>
    unfold serve at h
    split at h
    · cases h
      exact addressed_nil
    · obtain ⟨⟨s₁, first⟩, hturn, h⟩ := Option.bind_eq_some_iff.mp h
      obtain ⟨⟨s₂, more⟩, hmore, heq⟩ := Option.map_eq_some_iff.mp h
      cases heq
      obtain ⟨htied, hfirst⟩ := turn_tied hnew (hfinds q List.mem_cons_self) hturn
      exact addressed_append hfirst
        (ih (fun q' hq' => hfinds q' (List.mem_cons_of_mem q hq')) more s₁ hmore htied)

/-- A request for `g`, for which the resolver has the answer. -/
def otherRequest (answer : Option (Hostent Nat)) : Request Nat :=
  { plainRequest with Host := ['g'], call := ⟨plainExchange, answer⟩ }

/-- The address 1 is that of `h`, and 2 that of `g`. -/
def twoNames (name : Str) (a : Nat) : Prop := (name = ['h'] ∧ a = 1) ∨ (name = ['g'] ∧ a = 2)

/-- Two requests for two hosts. -/
theorem serve_addressed_two :
    ∃ s outs,
      serve (fun _ => none) none [plainRequest, otherRequest (some ⟨AF_INET, [2]⟩)] (.new 0) =
        some (s, outs) ∧
      .header (2, 80) ['g'] 80 ∈ outs ∧ twoNames ['g'] 2 ∧ (80 : Int) = 80 := by
  have hserve :
      (serve (fun _ => none) none [plainRequest, otherRequest (some ⟨AF_INET, [2]⟩)] (.new 0)).map
        (fun out => decide (.header (2, 80) ['g'] 80 ∈ out.2)) = some true := by decide +kernel
  obtain ⟨⟨s, outs⟩, hrun, houts⟩ := Option.map_eq_some_iff.mp hserve
  have hsent := of_decide_eq_true houts
  have hfinds : ∀ q ∈ [plainRequest, otherRequest (some ⟨AF_INET, [2]⟩)],
      q.Finds (fun _ => none) none twoNames := by
    simp only [List.mem_cons, List.not_mem_nil, or_false, forall_eq_or_imp, forall_eq]
    constructor
    all_goals
      intro c hc
      obtain rfl := List.mem_singleton.mp hc
      refine ⟨⟨by decide, by decide⟩, by decide, fun hip => absurd hip (by decide), fun _ => ?_⟩
    · exact ⟨_, rfl, by decide, fun a ha => .inl ⟨rfl, List.mem_singleton.mp ha⟩⟩
    · exact ⟨_, rfl, by decide, fun a ha => .inr ⟨rfl, List.mem_singleton.mp ha⟩⟩
  exact ⟨s, outs, hrun, hsent,
    serve_addressed (fun _ => none) none twoNames _ hfinds 0 s outs hrun _ _ _ hsent⟩

/-- The host `g` is not found: its header goes to the address of the host before it. -/
theorem serve_misaddressed :
    (serve (fun _ => none) none [plainRequest, otherRequest none] (.new 0)).map
      (fun out => decide (.header (1, 80) ['g'] 80 ∈ out.2)) = some true := by
  decide +kernel

/-! ## The calls of a connection -/

section Calls

variable {inet_aton : Str → Option Address} {parent : Option (Str × Int)} {q : Request Address}
  {s s' : Conversation Address} {outs : List (Output Address)}

/-- `s'` is left by the call of `e`, which is the last one of several from `x` on. -/
def LastCall (x : Proxy × Bool) (e : Exchange) (answer : Int) (p' : Proxy) : Prop :=
  ∃ (q : Proxy) (again : Bool) (left : Proxy),
    Run (fun x y => ∃ e, Proxy.Next e x y) x (q, again) ∧ e.fits q ∧
      e.communicate q = some (answer, left) ∧
      p' = { left with DropServer := left.DropServer && !(again && decide (answer = 0)) }

theorem vet_dropBrowser {part : Part} (h : e.vet p = some part) :
    part.state.DropBrowser = p.DropBrowser := by
  obtain ⟨limits, -, rfl⟩ := Option.map_eq_some_iff.mp h
  dsimp only
  split
  · rfl
  · unfold Exchange.changeHost
    split <;> rfl

theorem lookUp_dropBrowser (h : e.lookUp p = some p') : p'.DropBrowser = p.DropBrowser := by
  unfold Exchange.lookUp at h
  split at h
  · obtain ⟨c, -, rfl⟩ := Option.map_eq_some_iff.mp h
    rfl
  · cases h
    rfl

theorem contact_dropBrowser (e : Exchange) (p : Proxy) :
    (e.contact p).state.DropBrowser = p.DropBrowser := by
  unfold Exchange.contact
  dsimp only
  split
  · rfl
  · split
    · rfl
    · split
      · split <;> rfl
      · rfl

theorem respond_dropBrowser (h : e.respond p = some (.error (answer, p'))) :
    p'.DropBrowser = p.DropBrowser := by
  obtain ⟨⟨ok, header, c⟩, -, heq⟩ := Option.map_eq_some_iff.mp h
  dsimp only at heq
  split at heq
  · cases heq
    rfl
  · split at heq <;> cases heq
    rfl

theorem deliver_answer {ref : Int} (h : e.deliver ref p = some (answer, p')) :
    ¬ e.repeats answer := by
  have hanswer : answer = 0 ∨ answer = -10 ∨ answer = -74 ∨ answer = -75 := by
    unfold Exchange.deliver at h
    dsimp only at h
    split at h
    · unfold Exchange.finish at h
      split at h <;> cases h <;> simp
    · obtain ⟨⟨answer', y⟩, hrelay, heq⟩ := Option.map_eq_some_iff.mp h
      cases heq
      have hreading : Reading e.readBodyPart fun _ _ => True := fun _ _ _ _ _ _ _ _ => trivial
      cases relay_ends hreading _ trivial hrelay with
      | failed answer negative => exact .inr negative
      | dropped dropBrowser => exact .inl rfl
      | done s k read toServer length dropServer dropBrowser => exact .inl rfl
  rintro (⟨h, -⟩ | h | h) <;> omega

/-- A call that is repeated has not forgotten that the browser connection is not kept. -/
theorem communicate_dropBrowser (h : e.communicate p = some (answer, p'))
    (hrepeats : e.repeats answer) : p'.DropBrowser = p.DropBrowser := by
  cases Exchange.ends_of_communicate h with
  | vet vet => exact vet_dropBrowser vet
  | @contact _ _ p₁ p₂ vet lookUp contact =>
    have hcontact := contact_dropBrowser e p₂
    rw [contact] at hcontact
    exact hcontact.trans ((lookUp_dropBrowser lookUp).trans (vet_dropBrowser vet))
  | @respond _ p₁ p₂ p₃ vet lookUp contact respond =>
    have hcontact := contact_dropBrowser e p₂
    rw [contact] at hcontact
    refine (respond_dropBrowser respond).trans (hcontact.trans ?_)
    exact (lookUp_dropBrowser lookUp).trans (vet_dropBrowser vet)
  | deliver vet lookUp contact respond deliver => exact absurd hrepeats (deliver_answer deliver)

theorem repeats_ne_zero (h : e.repeats answer) : answer ≠ 0 := by
  rcases h with ⟨h, -⟩ | h | h <;> omega

/-- The calls of a request follow each other by `Proxy.Next`. -/
theorem repeatCalls_next {calls : List (HostCall Address)} {e' : Exchange} {retries : Nat}
    {answer' : Int} {more : List (Output Address)} {x : Proxy × Bool}
    {address₀ : PeerAddress Address} {s₀ : Conversation Address}
    (hlast : LastCall x (q.exchange parent e address₀ s₀) answer s.proxy)
    (hfits : (q.facing parent e s₀).repeats answer →
      q.requestType = .get ∨ s.proxy.DropBrowser = true)
    (h : q.repeatCalls inet_aton parent calls e retries answer s = some (e', answer', s', more)) :
    ∃ address₁ s₁, LastCall x (q.exchange parent e' address₁ s₁) answer' s'.proxy := by
  induction calls generalizing e retries answer s more address₀ s₀ with
  | nil =>
    unfold Request.repeatCalls at h
    split at h
    · cases h
    · cases h
      exact ⟨address₀, s₀, hlast⟩
  | cons c calls ih =>
    unfold Request.repeatCalls at h
    split at h
    · next hrepeats =>
      obtain ⟨⟨answer₁, s₁, outs⟩, hcall, h⟩ := Option.bind_eq_some_iff.mp h
      obtain ⟨p₀, again, left, hrun, hfits₀, hcall₀, hproxy⟩ := hlast
      have hsame : s.proxy = left := by
        rw [hproxy, decide_eq_false (repeats_ne_zero hrepeats), Bool.and_false]
        simp
      have hnext : Proxy.Next (q.exchange parent e address₀ s₀) (p₀, again)
          ((s.closeUpdate e).proxy, true) := by
        have := @Proxy.Next.again _ p₀ left again answer hfits₀ hcall₀ hrepeats
        rw [← hsame] at this
        exact this
      have hfits₁ := hfits hrepeats
      obtain ⟨address, -, hcall⟩ := Option.bind_eq_some_iff.mp hcall
      obtain ⟨⟨answer₂, p₂⟩, hcall₂, heq⟩ := Option.bind_eq_some_iff.mp hcall
      obtain ⟨reply, -, heq⟩ := Option.map_eq_some_iff.mp heq
      cases heq
      dsimp only at h
      generalize hs₂ : (if answer₁ = 0 then _ else _ : Conversation Address) = s₂ at h
      have hlast₂ : LastCall x (q.exchange parent c.exchange address (s.closeUpdate e)) answer₁
          s₂.proxy := by
        refine ⟨_, true, p₂, hrun.tail ⟨_, hnext⟩, hfits₁, hcall₂, ?_⟩
        rw [← hs₂]
        split
        · next hzero => simp [hzero]
        · next hzero => simp [hzero]
      have hdrop₂ : (q.facing parent c.exchange (s.closeUpdate e)).repeats answer₁ →
          q.requestType = .get ∨ s₂.proxy.DropBrowser = true := by
        intro hrepeats₂
        refine hfits₁.imp id fun hdrop => ?_
        have hkept := communicate_dropBrowser hcall₂ hrepeats₂
        rw [← hs₂]
        split
        · exact hkept.trans hdrop
        · exact hkept.trans hdrop
      split at h
      · cases h
        exact ⟨_, _, hlast₂⟩
      · obtain ⟨⟨e₃, answer₃, s₃, more₃⟩, hrest, heq⟩ := Option.map_eq_some_iff.mp h
        cases heq
        exact ih hlast₂ hdrop₂ hrest
    · cases h
      exact ⟨address₀, s₀, hlast⟩

theorem conclude_failed (q : Request Address) (e : Exchange) (s : Conversation Address) (h : answer ≠ 0) :
    (q.conclude e answer s).1.proxy.DropBrowser = true := by
  unfold Request.conclude
  dsimp only
  rw [if_pos h]

theorem conclude_zero (q : Request Address) (e : Exchange) (s : Conversation Address) :
    (q.conclude e 0 s).1.proxy = e.settle s.proxy := by
  unfold Request.conclude Exchange.settle
  dsimp only
  rw [if_neg (by simp)]
  split <;> rfl

/-- A request that is answered, and behind which the browser connection is kept, is a run of the
relation `Proxy.Next` from its first call to the one of the next request. -/
theorem answered_next (dropBrowser : Bool) (h : q.answered inet_aton parent s = some (s', outs))
    (hfits : q.requestType = .get ∨ s.proxy.DropBrowser = true) (hkept : ¬ s'.Gone) :
    Run (fun x y => ∃ e, Proxy.Next e x y) (s.proxy, false)
      ({ s'.proxy with DropServer := false, DropBrowser := dropBrowser }, false) := by
  obtain ⟨⟨answer₁, s₁, first⟩, hcall, h⟩ := Option.bind_eq_some_iff.mp h
  obtain ⟨⟨e₂, answer₂, s₂, more⟩, hmore, heq⟩ := Option.map_eq_some_iff.mp h
  have hs' : s' = (q.conclude e₂ answer₂ s₂).1 := (congrArg Prod.fst heq).symm
  obtain ⟨address, -, hcall⟩ := Option.bind_eq_some_iff.mp hcall
  obtain ⟨⟨answer, p⟩, hcall₁, heq⟩ := Option.bind_eq_some_iff.mp hcall
  obtain ⟨reply, -, heq⟩ := Option.map_eq_some_iff.mp heq
  cases heq
  have hfirst : LastCall (s.proxy, false) (q.exchange parent q.call.exchange address s) answer₁ p :=
    ⟨s.proxy, false, p, .refl, hfits, hcall₁, by simp⟩
  obtain ⟨address₃, s₃, p₀, again, left, hrun, hfits₀, hlast, hproxy⟩ :=
    repeatCalls_next hfirst (fun hrepeats => hfits.imp id fun hdrop =>
      (communicate_dropBrowser hcall₁ hrepeats).trans hdrop) hmore
  have hzero : answer₂ = 0 := by
    by_contra hfailed
    exact hkept (.inl (hs' ▸ conclude_failed q e₂ s₂ hfailed))
  subst hzero
  have hsettle : s'.proxy = (q.exchange parent e₂ address₃ s₃).settle s₂.proxy := by
    rw [hs', conclude_zero]
    rfl
  have hproxy₂ : s₂.proxy = { left with DropServer := !again && left.DropServer } := by
    rw [hproxy, Bool.and_comm]
    simp
  have hgone : left.DropBrowser = false ∧ left.BrowserDropped = false := by
    unfold Conversation.Gone at hkept
    rw [hsettle, hproxy₂, not_or, Bool.not_eq_true, Bool.not_eq_true] at hkept
    unfold Exchange.settle at hkept
    split at hkept <;> exact hkept
  have hnext := @Proxy.Next.request _ p₀ left again dropBrowser hfits₀ hlast hgone
  rw [← hproxy₂, ← hsettle] at hnext
  exact hrun.tail ⟨_, hnext⟩

end Calls

end Haarp
