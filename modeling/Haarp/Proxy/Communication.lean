import Haarp.Cache.Decide
import Haarp.Cache.Header
import Haarp.Proxy.Relay

/-!
# The requests of a browser connection

`Exchange.communicate` is `ProxyHandler::CommunicationHTTP`: the request is admitted, looked up in the
cache (`Cache` is called once), sent, answered with a header, and its body is relayed. `Proxy.Next`
is the loop of `ProxyHandler::Proxy` from one such call to the next.

Everything outside is in `Exchange`: what the browser asks and takes, what the database, the disks and
the server answer. The pages that are rewritten on their way (`track`) are relayed as the environment
says, and so is the header of a rewritten netflix page.
-/

namespace Haarp

inductive RequestType
  | get
  | head
  | post
  | other
  deriving DecidableEq, Repr

/-- How the transfer of a body from the browser ends. -/
inductive ClientBody
  | done
  | browserDropped
  | serverFailed
  deriving DecidableEq, Repr

/-- What one call of `CommunicationHTTP` meets. -/
structure Exchange where
  db : Db
  /-- The request: `HeaderToServer`, its type, its `Content-Length`, whether it goes to the host that
  the server connection is for, and to a parent proxy. -/
  header : Str
  requestType : RequestType
  browserLength : Int
  sameHost : Bool
  parent : Bool
  clientBody : ClientBody
  /-- The database can be opened; what `Cache` asks. -/
  opens : Bool
  asked : Asked
  /-- The server: it can be connected to, takes the header, and answers. -/
  connects : Bool
  takesHeader : Bool
  read : Bool × Str
  again : Bool × Str
  analysed : Analysed
  config : Str → Int
  unexpected : Bool
  /-- What each read of the body yields: a piece, nothing at its end, or an error. -/
  recv : List (Option Str)
  track : Nat → Str → Int × Str
  md5 : Str → Str
  identified : Option (Option Str)
  /-- The cache file, the clock, and how often the body loop turns at most. -/
  file : Str
  clock : Nat → Int
  fuel : Nat
  /-- The browser takes the header, and each piece. -/
  headerTaken : Bool
  send : List Str → Str → Bool

structure Proxy where
  ToServer : Connection
  ServerConnected : Bool
  DropServer : Bool
  DropBrowser : Bool
  BrowserDropped : Bool
  deriving DecidableEq

/-- A part of `CommunicationHTTP` returns an answer, or goes on. -/
inductive Part
  | answers (answer : Int) (p : Proxy)
  | goesOn (p : Proxy)

def Part.state : Part → Proxy
  | .answers _ p | .goesOn p => p

def Part.goes : Part → Option Proxy
  | .answers _ _ => none
  | .goesOn p => some p

/-- What follows a part that goes on. -/
def Part.next (x : Option Part) (f : Proxy → Option (Int × Proxy)) : Option (Int × Proxy) :=
  x.bind fun
    | .answers answer p => some (answer, p)
    | .goesOn p => f p

/-! ## The request -/

/-- `Close` -/
def Connection.close (c : Connection) : Connection := { c with connected := false, isOpen := false }

/-- `Close` before a connection to another host. -/
def Exchange.changeHost (e : Exchange) (p : Proxy) : Proxy :=
  if p.ServerConnected ∧ ¬ e.parent ∧ ¬ e.sameHost then
    { p with ToServer := p.ToServer.close, ServerConnected := false }
  else p

/-- The start of `CommunicationHTTP`. -/
def Exchange.vet (e : Exchange) (p : Proxy) : Option Part :=
  (getLimitBytes e.header).map fun limits =>
    let c := initializeVariables p.ToServer
    let p := { p with ToServer := { c with toLimits := limits, np := 0 } }
    if e.requestType = .post ∧ e.browserLength = -1 then
      .answers (-10) { p with BrowserDropped := true }
    else .goesOn (e.changeHost p)

/-- The start of `SetDomainAndPort`. -/
def Exchange.openDatabase (e : Exchange) (c : Connection) : Connection :=
  if c.connected then c
  else if e.opens then { c with connected := true, operation := none }
  else { c with operation := none }.close

/-- The connection that `Cache` is called for: from `SetDomainAndPort`, or from `SendHeader` when the
server connection is used again. -/
def Exchange.asking (e : Exchange) (p : Proxy) : Option Connection :=
  if ¬ p.ServerConnected then some (e.openDatabase p.ToServer)
  else if p.ToServer.passouheader then some { p.ToServer with isOpen := false }
  else none

/-- The call of `Cache`. -/
def Exchange.lookUp (e : Exchange) (p : Proxy) : Option Proxy :=
  match e.asking p with
  | some c => (c.cache e.db e.asked).map fun c => { p with ToServer := c }
  | none => some p

/-- `If-None-Match` -/
def ifNoneMatch : Str :=
  ['I', 'f', '-', 'N', 'o', 'n', 'e', '-', 'M', 'a', 't', 'c', 'h']

/-- The end of `SendHeader`: whether the header is sent. -/
def Exchange.sendHeader (e : Exchange) (c : Connection) : Bool × Connection :=
  let c := { c with passouheader := true }
  if c.rewrited then (true, c)
  else
    let c := { c with etag := c.etag || (find ifNoneMatch e.header).isSome }
    (c.hit || e.takesHeader, c)

/-- From `ConnectToServer` to the body of the browser. -/
def Exchange.contact (e : Exchange) (p : Proxy) : Part :=
  if ¬ p.ServerConnected ∧ ¬ (p.ToServer.rewrited ∨ p.ToServer.hit ∨ e.connects) then
    .answers (if e.parent then -61 else -60) p
  else
    let (sent, c) := e.sendHeader p.ToServer
    let p := { p with ToServer := c, ServerConnected := true }
    if ¬ sent then .answers (-60) { p with DropServer := true }
    else if e.browserLength ≥ 0 then
      match e.clientBody with
      | .done => .goesOn p
      | .browserDropped => .answers (-10) { p with BrowserDropped := true }
      | .serverFailed => .answers (-76) { p with DropServer := true }
    else .goesOn p

/-! ## The response -/

/-- From `ReadHeader` to `PrepareHeaderForBrowser`; what goes on is the announced length and the
state. -/
def Exchange.respond (e : Exchange) (p : Proxy) :
    Option (Except (Int × Proxy) (Int × Proxy)) :=
  (p.ToServer.readHeader e.db e.read e.again).map fun (ok, header, c) =>
    if ¬ ok then .error (-80, { p with ToServer := c, DropServer := true })
    else
      let c := c.analyseHeader e.analysed header
      let dropServer := p.DropServer || !c.isItKeepAlive
      let (contentLengthReference, c) := c.getContentLength e.db e.config
      let chunkedTransfer := c.isItChunked
      if contentLengthReference ≠ -1 ∧ chunkedTransfer then
        .error (-233, { p with ToServer := c, DropServer := true })
      else
        let c : Connection :=
          if c.r.isMatch ∧ ¬ c.hit then { c with timerecord := e.clock 0 } else c
        .ok (contentLengthReference,
          { p with
            ToServer := c, DropServer := dropServer
            DropBrowser := p.DropBrowser || decide (contentLengthReference = -1) || chunkedTransfer })

/-- The test for a response without a body. -/
def Exchange.noBody (e : Exchange) (contentLengthReference response : Int) : Bool :=
  response = 304 ∨ contentLengthReference = 0 ∨ e.requestType = .head ∨ response = 204

/-- A response without a body. -/
def Exchange.finish (e : Exchange) (p : Proxy) : Int × Proxy :=
  if ¬ e.headerTaken then (-10, { p with BrowserDropped := true })
  else (0, { p with DropServer := p.DropServer || (!p.ToServer.hit && e.unexpected) })

/-! ## The body -/

/-- `ToServer` while a body is relayed: the connection, the cache file, what the server still has for
it, and the number of calls of `ReadBodyPart`. -/
structure Wire where
  ToServer : Connection
  file : Str
  recv : List (Option Str)
  calls : Nat

def LENGTHHEADERFILE : Nat := 1024

/-- The text `youtube_IDs`, `NetflixID` or `NetflixjsID` is in the domain. -/
def tracked (domain : Str) : Bool :=
  (find ['y', 'o', 'u', 't', 'u', 'b', 'e', '_', 'I', 'D', 's'] domain).isSome ||
    (find ['N', 'e', 't', 'f', 'l', 'i', 'x', 'I', 'D'] domain).isSome ||
    (find ['N', 'e', 't', 'f', 'l', 'i', 'x', 'j', 's', 'I', 'D'] domain).isSome

/-- The row of a netflix file gets its name, or a new row does. -/
def Exchange.writeName (e : Exchange) (name : Str) (found : Option Str) (c : Connection) :
    Bool × Connection :=
  match found with
  | none => c.set e.db (.insertFree ⟨c.r.domain, name⟩)
  | some file => c.set e.db (.identify ⟨c.r.domain, file⟩ name)

/-- The name of a netflix file is completed with the checksum of its first bytes. -/
def Exchange.identify (e : Exchange) (c : Connection) (first second : Str) : Connection :=
  let (ok, c) := c.set e.db .startTransaction
  if ¬ ok then c
  else
    let name :=
      first ++ DELIM ++ e.md5 (c.readFileHeader.take LENGTHHEADERFILE) ++ DELIM ++ second
    let c := { c with operation := some .select }
    match e.identified with
    | none => (c.set e.db .rollback).2
    | some found =>
      let (ok, c) := e.writeName name found c
      if ¬ ok then (c.set e.db .rollback).2
      else { (c.set e.db .commit).2 with haveUpdateDB := true }

/-- A piece of a netflix response that is not cached; `none` where a name has no part at all. -/
def Exchange.collect (e : Exchange) (c : Connection) (bodyT : Str) : Option Connection :=
  let c := { c with readFileHeader := c.readFileHeader ++ bodyT }
  if c.readFileHeader.length ≥ LENGTHHEADERFILE ∧ ¬ c.haveUpdateDB ∧ c.range_min = 0 then
    match splitstring c.r.file DELIM with
    | [] => none
    | [_] => some c
    | first :: second :: _ => some (e.identify c first second)
  else some c

/-- `ConnectionToHTTP2::ReadBodyPart` -/
def Exchange.readBodyPart (e : Exchange) (w : Wire) : Option (Int × Str × Wire) :=
  let c := w.ToServer
  let calls := w.calls + 1
  if c.rewrited then some (2, ['\r', '\n'], { w with calls })
  else if c.hit ∨ c.miss2hit then
    (readHit e.db (e.clock calls) c.toTransfer w.file).map fun part =>
      (part.BodyLength, part.bodyT, { w with ToServer := { c with toTransfer := part.t }, calls })
  else
    let recv := w.recv.headD (some [])
    let w := { w with recv := w.recv.tail, calls }
    let bodyT := recv.getD []
    let BodyLength : Int := if recv.isSome then bodyT.length else -1
    if tracked c.r.domain then
      let (BodyLength, bodyT) := if recv.isSome then e.track calls bodyT else (BodyLength, bodyT)
      some (BodyLength, bodyT, w)
    else if c.r.domain = netflix ∧ ¬ c.r.isMatch then
      (e.collect c bodyT).map fun c => (BodyLength, bodyT, { w with ToServer := c })
    else if c.r.isMatch then
      (readMiss e.db (e.clock calls) c.toTransfer w.file recv).map fun part =>
        (part.BodyLength, part.bodyT,
          { w with ToServer := { c with toTransfer := part.t }, file := part.file })
    else some (BodyLength, bodyT, w)

/-- `Update` -/
def Connection.update (db : Db) (c : Connection) : Connection :=
  { c with toTransfer := Haarp.update db c.toTransfer }

def Exchange.update (e : Exchange) (w : Wire) : Wire :=
  { w with ToServer := w.ToServer.update e.db }

/-- The body of a response, with what is left on the wire. -/
def Exchange.relayBody (e : Exchange) (contentLengthReference : Int) (p : Proxy) :
    Option (Int × Relay Wire) :=
  relay e.readBodyPart e.update e.send contentLengthReference e.headerTaken e.fuel
    { ToServer := { ToServer := p.ToServer, file := e.file, recv := e.recv, calls := 0 }, sent := []
      ContentLength := 0, DropServer := p.DropServer, DropBrowser := p.DropBrowser
      BrowserDropped := p.BrowserDropped }

def Proxy.ofRelay (p : Proxy) (y : Relay Wire) : Proxy :=
  { p with
    ToServer := y.ToServer.ToServer, DropServer := y.DropServer, DropBrowser := y.DropBrowser
    BrowserDropped := y.BrowserDropped }

/-- From the test for a body to the end. -/
def Exchange.deliver (e : Exchange) (contentLengthReference : Int) (p : Proxy) :
    Option (Int × Proxy) :=
  let (response, c) := p.ToServer.getResponse e.db
  let p := { p with ToServer := c }
  if e.noBody contentLengthReference response then some (e.finish p)
  else (e.relayBody contentLengthReference p).map fun (answer, y) => (answer, p.ofRelay y)

/-- `CommunicationHTTP` -/
def Exchange.communicate (e : Exchange) (p : Proxy) : Option (Int × Proxy) :=
  Part.next (e.vet p) fun p =>
    Part.next ((e.lookUp p).map e.contact) fun p =>
      (e.respond p).bind fun
        | .error out => some out
        | .ok (contentLengthReference, p) => e.deliver contentLengthReference p

/-- How a call of `CommunicationHTTP` ends: before the request is looked up, before the response is
read, with its header, or with its body. -/
inductive Exchange.Ends (e : Exchange) (p : Proxy) : Int × Proxy → Prop
  | vet {answer : Int} {p' : Proxy} (vet : e.vet p = some (.answers answer p')) :
      Ends e p (answer, p')
  | contact {answer : Int} {p' p₁ p₂ : Proxy} (vet : e.vet p = some (.goesOn p₁))
      (lookUp : e.lookUp p₁ = some p₂) (contact : e.contact p₂ = .answers answer p') :
      Ends e p (answer, p')
  | respond {out : Int × Proxy} {p₁ p₂ p₃ : Proxy} (vet : e.vet p = some (.goesOn p₁))
      (lookUp : e.lookUp p₁ = some p₂) (contact : e.contact p₂ = .goesOn p₃)
      (respond : e.respond p₃ = some (.error out)) : Ends e p out
  | deliver {out : Int × Proxy} {p₁ p₂ p₃ p₄ : Proxy} {contentLengthReference : Int}
      (vet : e.vet p = some (.goesOn p₁)) (lookUp : e.lookUp p₁ = some p₂)
      (contact : e.contact p₂ = .goesOn p₃)
      (respond : e.respond p₃ = some (.ok (contentLengthReference, p₄)))
      (deliver : e.deliver contentLengthReference p₄ = some out) : Ends e p out

theorem Exchange.ends_of_communicate {e : Exchange} {p : Proxy} {out : Int × Proxy}
    (h : e.communicate p = some out) : e.Ends p out := by
  obtain ⟨part₁, hvet, h⟩ := Option.bind_eq_some_iff.mp h
  cases part₁ with
  | answers answer p' =>
    cases h
    exact .vet hvet
  | goesOn p₁ =>
    obtain ⟨part₂, hmap, h⟩ := Option.bind_eq_some_iff.mp h
    obtain ⟨p₂, hlookUp, rfl⟩ := Option.map_eq_some_iff.mp hmap
    generalize hcontact : e.contact p₂ = part₂ at h
    cases part₂ with
    | answers answer p' =>
      cases h
      exact .contact hvet hlookUp hcontact
    | goesOn p₃ =>
      obtain ⟨response, hrespond, h⟩ := Option.bind_eq_some_iff.mp h
      cases response with
      | error out' =>
        cases h
        exact .respond hvet hlookUp hcontact hrespond
      | ok header => exact .deliver hvet hlookUp hcontact hrespond h

/-! ## The loop over the requests -/

/-- `CloseUpdate` -/
def Exchange.closeUpdate (e : Exchange) (p : Proxy) : Proxy :=
  { p with
    ToServer := ((p.ToServer.update e.db).liberateEdition e.db).close, ServerConnected := false }

/-- The call is repeated on a new server connection. -/
def Exchange.repeats (e : Exchange) (answer : Int) : Prop :=
  (answer = -80 ∧ e.requestType = .get) ∨ answer = -60 ∨ answer = -61

/-- The end of a turn of the loop. -/
def Exchange.settle (e : Exchange) (p : Proxy) : Proxy :=
  if p.DropServer ∨ p.DropBrowser ∨ p.BrowserDropped then e.closeUpdate p else p

/-- The browser connection is kept open for requests of type GET only. -/
def Exchange.fits (e : Exchange) (p : Proxy) : Prop := e.requestType = .get ∨ p.DropBrowser = true

/-- From one call of `CommunicationHTTP` to the next one; `retry` marks a call that repeats one. After
a retry that succeeds, `DropServer` is forgotten. -/
inductive Proxy.Next (e : Exchange) : Proxy × Bool → Proxy × Bool → Prop
  | again {p p' : Proxy} {retry : Bool} (answer : Int) (fits : e.fits p)
      (call : e.communicate p = some (answer, p')) (repeats : e.repeats answer) :
      Next e (p, retry) (e.closeUpdate p', true)
  | request {p p' : Proxy} {retry : Bool} (dropBrowser : Bool) (fits : e.fits p)
      (call : e.communicate p = some (0, p'))
      (keeps : p'.DropBrowser = false ∧ p'.BrowserDropped = false) :
      Next e (p, retry)
        ({ e.settle { p' with DropServer := !retry && p'.DropServer } with
            DropServer := false, DropBrowser := dropBrowser }, false)

/-- The start of the loop. -/
def Proxy.new : Proxy :=
  { ToServer := .new, ServerConnected := false, DropServer := false, DropBrowser := false
    BrowserDropped := false }

end Haarp
