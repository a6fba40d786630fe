import Haarp.Http.ReadHeader
import Haarp.Http.Tokens
import Haarp.Proxy.RequestLine

/-!
# The header of a browser

`ConnectionToBrowser::AnalyseHeaderLine` reads the fields of a request, and `PrepareHeaderForServer`
writes the ones for the server. `Client.receive` and `Client.forward` are the two ends of a hop: a
text is read with `AnalyseHeader`, and the header that `SendHeader` sends is another text.

`Tells` is what one field can change, `TellsAll` what all of them do, and `Received` what an accepted
text is. `receive_decides`: which of the fields decides, whatever their order is.
-/

namespace Haarp

/-- `FORWARDED_IP`, `X_FORWARDED_FOR`, the browsers in `STREAMUSERAGENT`, and how the proxy runs;
`address` is the text of the address that the connection comes from. -/
structure ClientSettings where
  sslTunnel : Bool
  UseParentProxy : Bool
  FORWARDED_IP : Bool
  X_FORWARDED_FOR : Bool
  StreamUA : List Str
  address : Str
  deriving DecidableEq, Repr

/-- The members of `ConnectionToBrowser` that a header sets. -/
structure Client extends ConnectionToBrowser where
  IP : Str
  UserAgent : Str
  ContentLength : Int
  ProxyConnection : Bool
  IsStreamAgent : Bool
  deriving DecidableEq, Repr

namespace Client

open HTTPHandler (spacedField spacedFields fieldValue)

/-- `ClearVars` -/
def new (Transparent : Bool) : Client :=
  { Request := [], Host := [], Port := -1, RequestType := [], RequestProtocol := [], FtpUser := []
    FtpPass := [], IsKeepAlive := false, Transparent, IP := [], UserAgent := [], ContentLength := -1
    ProxyConnection := false, IsStreamAgent := false }

/-! ## The fields -/

/-- `CONNECTION: ` -/
def connectionName : Str := "CONNECTION: ".toList

/-- `PROXY-CONNECTION: ` -/
def proxyConnectionName : Str := "PROXY-CONNECTION: ".toList

/-- `X-FORWARDED-FOR: ` -/
def forwardedForName : Str := "X-FORWARDED-FOR: ".toList

/-- `USER-AGENT: ` -/
def userAgentName : Str := "USER-AGENT: ".toList

/-- `HOST: ` -/
def hostName : Str := "HOST: ".toList

/-- `KEEP-ALIVE` -/
def keepAliveText : Str := "KEEP-ALIVE".toList

/-- The text is found first at `startpos`, in front of a zero. -/
def matchSubstr (hay needle : Str) (startpos : Nat) : Bool :=
  decide (find needle (cStr hay) = some startpos)

/-- `GetHostAndPortOfHostLine` -/
def getHostAndPortOfHostLine (HostLineT : Str) (c : Client) : Int × Client :=
  let HostwithPort := HostLineT.drop 6
  match findFrom [':'] 1 HostwithPort with
  | none => (0, { c with Host := HostwithPort, Port := 80 })
  | some PositionPort =>
    let c : Client := { c with Host := HostwithPort.take PositionPort }
    if c.Host.length > 256 then (-210, c)
    else
      let PortString := HostwithPort.drop PositionPort
      if PortString.length > 6 then (-212, c)
      else
        match scanPort PortString with
        | none => (-212, c)
        | some Port => (if Port < 1 ∨ Port > 65535 then -212 else 0, { c with Port })

/-- The value of a field `Content-Length` that is not valid is ignored. -/
def lengthLine (RequestT : Str) (c : Client) : Client :=
  if (findFirstNotOf ['0', '1', '2', '3', '4', '5', '6', '7', '8', '9']
      ((UpperCase RequestT).drop 16)).isSome then c
  else
    let LengthToken := RequestT.drop 16
    if LengthToken.length > 18 then c
    else
      { c with
        ContentLength := if LengthToken = [] then -1 else Nat.ofDigitChars 10 LengthToken 0 }

/-- `AnalyseHeaderLine` -/
def analyseHeaderLine (settings : ClientSettings) (RequestT : Str) (c : Client) : Int × Client :=
  let RequestU := UpperCase RequestT
  if ConnectionToHTTP.lengthName ++ [':'] <+: RequestU then (0, lengthLine RequestT c)
  else if ¬ c.ProxyConnection ∧ connectionName <+: RequestU then
    (0, { c with IsKeepAlive := matchSubstr RequestU keepAliveText 12 })
  else if ¬ c.ProxyConnection ∧ proxyConnectionName <+: RequestU then
    (0, { c with ProxyConnection := true, IsKeepAlive := matchSubstr RequestU keepAliveText 18 })
  else if settings.FORWARDED_IP ∧ forwardedForName <+: RequestU then
    (0, { c with IP := RequestT.drop 17 })
  else if userAgentName <+: RequestU then
    (0, { c with
      UserAgent := RequestT.drop 12
      IsStreamAgent :=
        c.IsStreamAgent || settings.StreamUA.any fun UA => (findFrom UA 12 RequestU).isSome })
  else if c.Transparent ∧ hostName <+: RequestU then getHostAndPortOfHostLine RequestT c
  else (0, c)

/-- `AnalyseFirstHeaderLine` -/
def analyseFirstHeaderLine (settings : ClientSettings) (RequestT : Str) (c : Client) : Int × Client :=
  let (ret, b) := c.toConnectionToBrowser.analyseFirstHeaderLine settings.sslTunnel RequestT
  (ret, { c with toConnectionToBrowser := b })

def handler (settings : ClientSettings) : HTTPHandler Client :=
  ⟨analyseFirstHeaderLine settings, analyseHeaderLine settings⟩

/-- `GetIP` -/
def getIP (settings : ClientSettings) (c : Client) : Str :=
  if c.IP = [] then settings.address else c.IP

/-! ## The header for the server -/

/-- The pages that are rewritten are not to be compressed. -/
def rewritten (c : Client) : Bool :=
  let Host := UpperCase c.Host
  let Request := UpperCase c.Request
  (decide (Host = "WWW.YOUTUBE.COM".toList) && (find "/WATCH?".toList Request).isSome) ||
    (decide (Host = "WWW.NETFLIX.COM".toList) && (find "/WATCH/".toList Request).isSome) ||
    (decide (Host = "SECURE.NETFLIX.COM".toList) && (find "/PLAYER/HTML/".toList Request).isSome)

/-- The `continue`s of the loop: a field that is not sent. -/
def unsent (settings : ClientSettings) (line : Str) : Bool :=
  let it := UpperCase line
  if "PROXY".toList.isPrefixOf it then
    !(settings.UseParentProxy && "PROXY-AUTHORIZATION".toList.isPrefixOf it)
  else
    "KEEP-ALIVE".toList.isPrefixOf it || "VIA".toList.isPrefixOf it ||
      "CONNECTION".toList.isPrefixOf it || "X-FORWARD".toList.isPrefixOf it

/-- What becomes of a field. -/
def forwardField (settings : ClientSettings) (c : Client) (line : Str) : Option Str :=
  if unsent settings line then none
  else if "PROXY".toList.isPrefixOf (UpperCase line) then some line
  else if "HOST".toList.isPrefixOf (UpperCase line) then some ("Host: ".toList ++ c.Host)
  else if "ACCEPT-ENCODING".toList.isPrefixOf (UpperCase line) && c.rewritten then
    some "Accept-Encoding: ".toList
  else some line

/-- The text `via` behind a field. -/
def viaOf (via line : Str) : Str :=
  if "VIA".toList.isPrefixOf (UpperCase line) then
    match findFirstNotOf [' '] (line.drop 4) with
    | some Position => ", ".toList ++ line.drop (4 + Position)
    | none => via
  else via

/-- The fields that the proxy adds. -/
def ownFields (settings : ClientSettings) (c : Client) (via : Str) : List Str :=
  if settings.X_FORWARDED_FOR then
    ["X-Forwarded-For: ".toList ++ c.getIP settings, "Via: 1.0 Haarp".toList ++ via]
  else ["Via: 1.0 PROXY".toList]

/-- `PrepareHeaderForServer`; `tokens` are the ones of `AnalyseHeader`. -/
def prepareHeaderForServer (settings : ClientSettings) (tokens : List Str) (c : Client) : Str :=
  let request := c.toConnectionToBrowser.requestLine settings.UseParentProxy
  let fields := tokens.tail.filterMap (forwardField settings c)
  let via := tokens.tail.foldl viaOf []
  (if request = [] then [] else request ++ crlf) ++
    ((fields ++ ownFields settings c via).map (· ++ crlf)).flatten

/-- The line with which `SendHeader` ends a header. -/
def connectionLine (ConnectionClose : Bool) : Str :=
  if ConnectionClose then "Connection: close".toList else "Connection: keep-alive".toList

/-! ## A hop -/

/-- `AnalyseHeader`, behind `ClearVars`. -/
def receive (settings : ClientSettings) (Transparent : Bool) (text : Str) :
    Option (List Str × Client) :=
  match (handler settings).analyseHeader (text.length + 1) text (new Transparent) with
  | some (ret, tokens, c) => if ret < 0 then none else some (tokens, c)
  | none => none

/-- The header that is sent to the server. -/
def forward (settings : ClientSettings) (ConnectionClose : Bool) (tokens : List Str) (c : Client) :
    Str :=
  prepareHeaderForServer settings tokens c ++ connectionLine ConnectionClose ++ crlf ++ crlf

/-! ## What the fields decide -/

section Fields

variable {settings : ClientSettings} {fields : List Str} {c c' : Client}

/-- What a field tells about keeping the connection: `Proxy-Connection`, and `Connection`. -/
def tellsProxy (line : Str) : Option Bool :=
  if proxyConnectionName <+: UpperCase line then some (matchSubstr (UpperCase line) keepAliveText 18)
  else none

def tellsConnection (line : Str) : Option Bool :=
  if connectionName <+: UpperCase line then some (matchSubstr (UpperCase line) keepAliveText 12)
  else none

/-- The length that a field gives, if it is valid. -/
def tellsLength (line : Str) : Option Int :=
  if ConnectionToHTTP.lengthName ++ [':'] <+: UpperCase line then
    if (findFirstNotOf ['0', '1', '2', '3', '4', '5', '6', '7', '8', '9']
        ((UpperCase line).drop 16)).isSome then none
    else if (line.drop 16).length > 18 then none
    else some (if line.drop 16 = [] then -1 else Nat.ofDigitChars 10 (line.drop 16) 0)
  else none

/-- The address that a field gives. -/
def tellsAddress (settings : ClientSettings) (line : Str) : Option Str :=
  if settings.FORWARDED_IP ∧ forwardedForName <+: UpperCase line then some (line.drop 17) else none

/-- A line begins with one of two names only, where neither begins with the other. -/
theorem not_prefix {name name' line : Str} (h : name <+: line) (hname : ¬ name <+: name')
    (hname' : ¬ name' <+: name) : ¬ name' <+: line := fun h' =>
  (List.prefix_or_prefix_of_prefix h h').elim hname hname'

/-- What a field changes. -/
structure Tells (settings : ClientSettings) (line : Str) (c c' : Client) : Prop where
  proxy : c'.ProxyConnection = (c.ProxyConnection || (tellsProxy line).isSome)
  keepAlive : c'.IsKeepAlive =
    if c.ProxyConnection then c.IsKeepAlive
    else (tellsProxy line).getD ((tellsConnection line).getD c.IsKeepAlive)
  length : c'.ContentLength = (tellsLength line).getD c.ContentLength
  address : c'.IP = (tellsAddress settings line).getD c.IP

/-- A field that changes nothing of these. -/
structure Silent (c c' : Client) : Prop where
  proxy : c'.ProxyConnection = c.ProxyConnection
  keepAlive : c'.IsKeepAlive = c.IsKeepAlive
  length : c'.ContentLength = c.ContentLength
  address : c'.IP = c.IP

theorem getHostAndPortOfHostLine_silent (line : Str) (c : Client) :
    Silent c (getHostAndPortOfHostLine line c).2 := by
  unfold getHostAndPortOfHostLine
  dsimp only
  split
  · exact ⟨rfl, rfl, rfl, rfl⟩
  · split
    · exact ⟨rfl, rfl, rfl, rfl⟩
    · split
      · exact ⟨rfl, rfl, rfl, rfl⟩
      · split <;> exact ⟨rfl, rfl, rfl, rfl⟩

theorem Silent.tells {line : Str} (h : Silent c c')
    (hproxy : c.ProxyConnection = true ∨ ¬ proxyConnectionName <+: UpperCase line)
    (hconnection : c.ProxyConnection = true ∨ ¬ connectionName <+: UpperCase line)
    (hlength : tellsLength line = none) (haddress : tellsAddress settings line = none) :
    Tells settings line c c' := by
  refine ⟨?_, ?_, by rw [hlength]; exact h.length, by rw [haddress]; exact h.address⟩
  · rw [h.proxy]
    rcases hproxy with hproxy | hproxy
    · rw [hproxy, Bool.true_or]
    · rw [tellsProxy, if_neg hproxy, Option.isSome_none, Bool.or_false]
  · rw [h.keepAlive]
    split
    · rfl
    · next hopen =>
      rw [tellsProxy, if_neg (hproxy.resolve_left hopen), tellsConnection,
        if_neg (hconnection.resolve_left hopen)]
      rfl

theorem lengthLine_tells {line : Str}
    (h : ConnectionToHTTP.lengthName ++ [':'] <+: UpperCase line) (c : Client) :
    Tells settings line c (lengthLine line c) := by
  have hproxy := not_prefix h (by decide : ¬ _ <+: proxyConnectionName) (by decide)
  have hconnection := not_prefix h (by decide : ¬ _ <+: connectionName) (by decide)
  have hforwarded := not_prefix h (by decide : ¬ _ <+: forwardedForName) (by decide)
  have haddress : tellsAddress settings line = none := if_neg fun h => hforwarded h.2
  have htells : tellsLength line = _ := if_pos h
  unfold lengthLine
  dsimp only
  split
  · next hinvalid =>
    exact Silent.tells ⟨rfl, rfl, rfl, rfl⟩ (.inr hproxy) (.inr hconnection)
      (htells.trans (if_pos hinvalid)) haddress
  · next hvalid =>
    rw [if_neg hvalid] at htells
    split
    · next hlong =>
      exact Silent.tells ⟨rfl, rfl, rfl, rfl⟩ (.inr hproxy) (.inr hconnection)
        (htells.trans (if_pos hlong)) haddress
    · next hshort =>
      rw [if_neg hshort] at htells
      refine ⟨?_, ?_, ?_, ?_⟩
      · simp [tellsProxy, hproxy]
      · simp [tellsProxy, tellsConnection, hproxy, hconnection]
      · rw [htells]
        rfl
      · rw [haddress]
        rfl

/-- **What a field changes**, of whatever kind it is. -/
theorem analyseHeaderLine_tells (settings : ClientSettings) (line : Str) (c : Client) :
    Tells settings line c (analyseHeaderLine settings line c).2 := by
  unfold analyseHeaderLine
  dsimp only
  split
  · next h => exact lengthLine_tells h c
  · next hnolength =>
    have hlength : tellsLength line = none := if_neg hnolength
    split
    · next h =>
      have hopen : c.ProxyConnection = false := by simpa using h.1
      have hproxy := not_prefix h.2 (by decide : ¬ _ <+: proxyConnectionName) (by decide)
      have hforwarded := not_prefix h.2 (by decide : ¬ _ <+: forwardedForName) (by decide)
      refine ⟨?_, ?_, ?_, ?_⟩
      · simp [tellsProxy, hproxy]
      · simp [hopen, tellsProxy, hproxy, tellsConnection, h.2]
      · simp [hlength]
      · simp [tellsAddress, hforwarded]
    · next hnoconnection =>
      split
      · next h =>
        have hopen : c.ProxyConnection = false := by simpa using h.1
        have hforwarded := not_prefix h.2 (by decide : ¬ _ <+: forwardedForName) (by decide)
        refine ⟨?_, ?_, ?_, ?_⟩
        · simp [tellsProxy, h.2]
        · simp [hopen, tellsProxy, h.2]
        · simp [hlength]
        · simp [tellsAddress, hforwarded]
      · next hnoproxy =>
        have hproxy : c.ProxyConnection = true ∨ ¬ proxyConnectionName <+: UpperCase line := by
          simpa [or_iff_not_imp_left] using hnoproxy
        have hconnection : c.ProxyConnection = true ∨ ¬ connectionName <+: UpperCase line := by
          simpa [or_iff_not_imp_left] using hnoconnection
        split
        · next h =>
          have htells : tellsAddress settings line = some (line.drop 17) := if_pos h
          have hproxy' := not_prefix h.2 (by decide : ¬ _ <+: proxyConnectionName) (by decide)
          have hconnection' := not_prefix h.2 (by decide : ¬ _ <+: connectionName) (by decide)
          refine ⟨?_, ?_, ?_, ?_⟩
          · simp [tellsProxy, hproxy']
          · simp [tellsProxy, tellsConnection, hproxy', hconnection']
          · simp [hlength]
          · simp [htells]
        · next hnoaddress =>
          have haddress : tellsAddress settings line = none := if_neg hnoaddress
          split
          · exact Silent.tells ⟨rfl, rfl, rfl, rfl⟩ hproxy hconnection hlength haddress
          · split
            · exact (getHostAndPortOfHostLine_silent line c).tells hproxy hconnection hlength haddress
            · exact Silent.tells ⟨rfl, rfl, rfl, rfl⟩ hproxy hconnection hlength haddress

/-- What the fields say, one after the other. -/
structure TellsAll (settings : ClientSettings) (fields : List Str) (c c' : Client) : Prop where
  keepAlive : c'.IsKeepAlive =
    if c.ProxyConnection then c.IsKeepAlive
    else (fields.filterMap tellsProxy).head?.getD
      ((fields.filterMap tellsConnection).getLast?.getD c.IsKeepAlive)
  length : c'.ContentLength = (fields.filterMap tellsLength).getLast?.getD c.ContentLength
  address : c'.IP = (fields.filterMap (tellsAddress settings)).getLast?.getD c.IP

/-- The last one of the values that a list gives. -/
theorem getLast?_filterMap_cons {α β : Type*} (f : α → Option β) (a : α) (as : List α) (d : β) :
    ((a :: as).filterMap f).getLast?.getD d = (as.filterMap f).getLast?.getD ((f a).getD d) := by
  rw [List.filterMap_cons]
  cases f a with
  | none => rfl
  | some b =>
    dsimp only
    rw [List.getLast?_cons, Option.getD_some, Option.getD_some]

theorem acceptFields_tells (h : (handler settings).acceptFields fields c = some c') :
    TellsAll settings fields c c' := by
  induction fields generalizing c with
  | nil =>
    cases h
    exact ⟨by simp, rfl, rfl⟩
  | cons line fields ih =>
    rw [HTTPHandler.acceptFields] at h
    split at h
    · cases h
    · have hline := analyseHeaderLine_tells settings line c
      have hrest := ih h
      refine ⟨?_, ?_, ?_⟩
      · rw [hrest.keepAlive, show ((handler settings).analyseHeaderLine line c).2 =
          (analyseHeaderLine settings line c).2 from rfl, hline.proxy, hline.keepAlive,
          getLast?_filterMap_cons, List.filterMap_cons]
        cases hopen : c.ProxyConnection with
        | true => simp
        | false => cases hproxy : tellsProxy line <;> simp
      · rw [hrest.length, getLast?_filterMap_cons]
        exact congrArg _ hline.length
      · rw [hrest.address, getLast?_filterMap_cons]
        exact congrArg _ hline.address

end Fields

/-! ## Reading a header -/

/-- A header that is accepted: its first line is, and its fields are one after the other. -/
structure Received (settings : ClientSettings) (Transparent : Bool) (text : Str) (tokens : List Str)
    (c : Client) : Prop where
  ends : '\n' ∈ text
  tokens : tokens = (headerLines text).head?.toList ++ (headerLines text).tail.map spacedField
  accepts : (handler settings).Accepts (headerLines text) (new Transparent) c

theorem receive_iff {settings : ClientSettings} {Transparent : Bool} {text : Str}
    {tokens : List Str} {c : Client} :
    receive settings Transparent text = some (tokens, c) ↔
      Received settings Transparent text tokens c := by
  unfold receive
  rw [(handler settings).analyseHeader_eq (Nat.lt_succ_self text.length)]
  obtain ⟨haccepted, hrefused⟩ := (handler settings).tokenLines_true
    (ConnectionToHTTP.lfLines [] (text.filter (· ≠ '\r'))) (new Transparent)
  by_cases hends : '\n' ∈ text
  · rw [if_pos hends]
    dsimp only
    constructor
    · intro h
      split at h
      · cases h
      · next hcode =>
        obtain ⟨c', hc'⟩ :
            ∃ c', (handler settings).Accepts (headerLines text) (new Transparent) c' := by
          by_contra hnone
          exact hcode (hrefused fun c' hc' => hnone ⟨c', hc'⟩)
        rw [haccepted c' hc'] at h
        cases h
        exact ⟨hends, rfl, hc'⟩
    · intro h
      rw [haccepted c h.accepts, if_neg (Int.lt_irrefl 0), h.tokens]
      rfl
  · rw [if_neg hends]
    dsimp only
    rw [if_pos (by decide)]
    constructor
    · intro h
      cases h
    · intro h
      exact absurd h.ends hends

/-- The fields that are analysed. -/
def fieldsOf (text : Str) : List Str := spacedFields (headerLines text).tail

/-- What is known behind the first line. -/
def firstLine (settings : ClientSettings) (Transparent : Bool) (text : Str) : Client :=
  match headerLines text with
  | [] => new Transparent
  | line :: _ => (analyseFirstHeaderLine settings line (new Transparent)).2

theorem Received.tells {settings : ClientSettings} {Transparent : Bool} {text : Str}
    {tokens : List Str} {c : Client} (h : Received settings Transparent text tokens c) :
    TellsAll settings (fieldsOf text) (firstLine settings Transparent text) c := by
  have haccepts := h.accepts
  unfold HTTPHandler.Accepts at haccepts
  unfold fieldsOf firstLine
  split at haccepts
  · next hlines =>
    rw [hlines]
    subst haccepts
    exact ⟨by simp [spacedFields], rfl, rfl⟩
  · next line fields hlines =>
    rw [hlines]
    exact acceptFields_tells haccepts.2

/-- **What the fields decide**, in any number and order: the first `Proxy-Connection` decides about
the connection, else the last `Connection`, else the version in the first line; the length of the body
is the last one that is valid; and the address is the last one that was forwarded, if that is
believed. -/
theorem receive_decides (settings : ClientSettings) (Transparent : Bool) (text : Str)
    (tokens : List Str) (c : Client) (h : receive settings Transparent text = some (tokens, c)) :
    c.IsKeepAlive = ((fieldsOf text).filterMap tellsProxy).head?.getD
        (((fieldsOf text).filterMap tellsConnection).getLast?.getD
          (firstLine settings Transparent text).IsKeepAlive) ∧
      c.ContentLength = ((fieldsOf text).filterMap tellsLength).getLast?.getD (-1) ∧
      c.IP = ((fieldsOf text).filterMap (tellsAddress settings)).getLast?.getD [] := by
  have htells := (receive_iff.mp h).tells
  have hfirst : (firstLine settings Transparent text).ProxyConnection = false ∧
      (firstLine settings Transparent text).ContentLength = -1 ∧
      (firstLine settings Transparent text).IP = [] := by
    unfold firstLine
    split <;> exact ⟨rfl, rfl, rfl⟩
  refine ⟨?_, ?_, ?_⟩
  · rw [htells.keepAlive, hfirst.1]
    rfl
  · rw [htells.length, hfirst.2.1]
  · rw [htells.address, hfirst.2.2]

/-- A proxy that believes what is forwarded, and forwards it. -/
def openProxy : ClientSettings :=
  { sslTunnel := false, UseParentProxy := true, FORWARDED_IP := true, X_FORWARDED_FOR := true
    StreamUA := [], address := "10.0.0.1".toList }

def contraryHeader : Str :=
  ("GET http://h/ HTTP/1.1\r\nConnection: close\r\nContent-Length: 3\r\nContent-Length: x\r\n" ++
    "Proxy-Connection:  keep-alive\r\nConnection: close\r\nX-Forwarded-For: 10.0.0.7\r\n\r\n").toList

theorem receive_decides_contrary :
    ∃ tokens c, receive openProxy false contraryHeader = some (tokens, c) ∧ c.IsKeepAlive = true ∧
      c.ContentLength = 3 ∧ c.IP = "10.0.0.7".toList := by
  have hreceive : (receive openProxy false contraryHeader).isSome = true := by decide +kernel
  obtain ⟨⟨tokens, c⟩, h⟩ := Option.isSome_iff_exists.mp hreceive
  obtain ⟨hkeepAlive, hlength, haddress⟩ := receive_decides openProxy false contraryHeader tokens c h
  refine ⟨tokens, c, h, hkeepAlive.trans ?_, hlength.trans ?_, haddress.trans ?_⟩ <;> decide +kernel

end Client

end Haarp
