import Haarp.Proxy.ClientBody
import Haarp.Utils.Replace

/-!
# Request lines

`ConnectionToBrowser::AnalyseFirstHeaderLine` reads the request line of a browser, and
`PrepareHeaderForServer` writes the one for the server. Only the members that the two use are here.
-/

namespace Haarp

/-- The members of `ConnectionToBrowser` that a request line sets, and the mode. -/
structure ConnectionToBrowser where
  Request : Str
  Host : Str
  Port : Int
  RequestType : Str
  RequestProtocol : Str
  FtpUser : Str
  FtpPass : Str
  IsKeepAlive : Bool
  Transparent : Bool
  deriving DecidableEq, Repr

/-- `METHODS` -/
def Methods : List Str :=
  ["GET".toList, "POST".toList, "HEAD".toList, "CONNECT".toList, "PUT".toList, "TRACE".toList,
    "PURGE".toList, "OPTIONS".toList, "UNLOCK".toList, "SEARCH".toList, "PROPFIND".toList,
    "BPROPFIND".toList, "PROPPATCH".toList, "BPROPPATCH".toList, "MKCOL".toList, "COPY".toList,
    "BCOPY".toList, "MOVE".toList, "LOCK".toList, "BMOVE".toList, "DELETE".toList, "BDELETE".toList,
    "SUBSCRIBE".toList, "UNSUBSCRIBE".toList, "POLL".toList, "REPORT".toList, "ERROR".toList,
    "NONE".toList, "MKACTIVITY".toList, "CHECKOUT".toList, "MERGE".toList]

/-- `CONNECT` -/
def connectMethod : Str := ['C', 'O', 'N', 'N', 'E', 'C', 'T']

/-- `http` -/
def httpText : Str := ['h', 't', 't', 'p']

/-- `ftp` -/
def ftpText : Str := ['f', 't', 'p']

/-- `connect` -/
def connectText : Str := ['c', 'o', 'n', 'n', 'e', 'c', 't']

/-- `://` -/
def schemeEnd : Str := [':', '/', '/']

/-- `HTTP/1.1` -/
def http11 : Str := ['H', 'T', 'T', 'P', '/', '1', '.', '1']

/-- `HTTP/1.0` -/
def http10 : Str := ['H', 'T', 'T', 'P', '/', '1', '.', '0']

/-- There is a number behind blanks and a sign. -/
def hasNumber (str : Str) : Bool :=
  let str := str.dropWhile isspace
  let digits := if str.head? = some '-' ∨ str.head? = some '+' then str.tail else str
  digits.head?.any Char.isDigit

/-- `sscanf(PortString.c_str(), ":%d", &Port)` -/
def scanPort (PortString : Str) : Option Int :=
  match cStr PortString with
  | ':' :: number => if hasNumber number then some (toInt (atoll number)) else none
  | _ => none

namespace ConnectionToBrowser

/-- `ClearVars` -/
def clearVars (c : ConnectionToBrowser) : ConnectionToBrowser :=
  { c with
    RequestProtocol := [], RequestType := [], Request := [], Host := [], FtpUser := [], FtpPass := []
    Port := -1, IsKeepAlive := false }

/-! ## Reading a request line -/

/-- `CONNECT host:port`, with `SSLTUNNEL`. -/
def connectRequest (RequestT : Str) (c : ConnectionToBrowser) : Int × ConnectionToBrowser :=
  let c := { c with RequestProtocol := connectText }
  match findFirstNotOf [' '] (RequestT.drop 8) with
  | none => (-201, c)
  | some blanks =>
    match findFrom [' '] (8 + blanks) RequestT with
    | none => (-201, c)
    | some LastPosition =>
      let HostwithPort := (RequestT.drop (8 + blanks)).take (LastPosition - (8 + blanks))
      match findFrom [':'] 1 HostwithPort with
      | none => (-201, c)
      | some Begin =>
        let c := { c with Host := HostwithPort.take Begin }
        if c.Host.length > 256 then (-210, c)
        else
          match scanPort (HostwithPort.drop Begin) with
          | none => (-201, c)
          | some Port =>
            let c := { c with Port, Request := HostwithPort }
            (if c.Port ≥ 80 ∧ c.Port ≤ 65535 then 0 else -211, c)

/-- A request line in transparent mode. -/
def transparentRequest (RequestT : Str) (StartPos : Nat) (c : ConnectionToBrowser) :
    Int × ConnectionToBrowser :=
  if findFrom ['/'] StartPos RequestT = some StartPos then
    match findFrom [' '] StartPos RequestT with
    | none => (-201, c)
    | some LastPosition =>
      if LastPosition > 4096 then (-201, c)
      else
        let keepAlive := (findFrom http11 (LastPosition + 1) (UpperCase RequestT)).isSome
        (0, { c with
          IsKeepAlive := c.IsKeepAlive || keepAlive, RequestProtocol := httpText
          Request := (RequestT.drop StartPos).take (LastPosition - StartPos) })
  else (-201, c)

/-- The login in front of the last `@`. -/
def login (UserPass : Str) (c : ConnectionToBrowser) : ConnectionToBrowser :=
  if c.RequestProtocol = ftpText then
    match find [':'] UserPass with
    | some Position =>
      { c with FtpUser := UserPass.take Position, FtpPass := UserPass.drop (Position + 1) }
    | none => { c with FtpUser := UserPass, FtpPass := [] }
  else c

/-- The port behind the last `:`, and the host. -/
def hostAndPort (RequestDomain : Str) (c : ConnectionToBrowser) : Int × ConnectionToBrowser :=
  match rfind [':'] RequestDomain with
  | some LastPosition =>
    let PortString := RequestDomain.drop LastPosition
    if PortString.length > 6 then (-212, c)
    else
      match scanPort PortString with
      | none => (-212, c)
      | some Port =>
        let c := { c with Port }
        if c.Port < 1 ∨ c.Port > 65535 then (-212, c)
        else
          let c := { c with Host := RequestDomain.take LastPosition }
          (if c.Host.length > 256 then -210 else 0, c)
  | none =>
    if c.RequestProtocol = httpText ∨ c.RequestProtocol = ftpText then
      let c :=
        { c with Port := if c.RequestProtocol = httpText then 80 else 21, Host := RequestDomain }
      (if c.Host.length > 256 then -210 else 0, c)
    else (-215, c)

/-- From the domain on, with the login. -/
def splitDomain (RequestDomain : Str) (c : ConnectionToBrowser) : Int × ConnectionToBrowser :=
  match rfind ['@'] RequestDomain with
  | some LastPosition =>
    let c := c.login (RequestDomain.take LastPosition)
    let RequestDomain := RequestDomain.drop (LastPosition + 1)
    if RequestDomain.length = 0 then (-201, c) else hostAndPort RequestDomain c
  | none => hostAndPort RequestDomain c

/-- From the domain and the path on. -/
def splitUrl (RequestDomain : Str) (c : ConnectionToBrowser) : Int × ConnectionToBrowser :=
  let slash := find ['/'] RequestDomain
  let c := { c with Request := slash.elim ['/'] RequestDomain.drop }
  splitDomain (slash.elim RequestDomain RequestDomain.take) c

/-- A request line with an address, from the place behind the protocol on. -/
def urlRequest (RequestT : Str) (Begin : Nat) (c : ConnectionToBrowser) :
    Int × ConnectionToBrowser :=
  match findFrom [' '] Begin RequestT with
  | none => (-201, c)
  | some LastPosition =>
    if LastPosition = Begin ∨ LastPosition > 4096 then (-201, c)
    else
      let keepAlive := (findFrom http11 (LastPosition + 1) (UpperCase RequestT)).isSome
      splitUrl ((RequestT.drop Begin).take (LastPosition - Begin))
        { c with IsKeepAlive := c.IsKeepAlive || keepAlive }

/-- `GetHostAndPortOfRequest`; the login that it takes out of `RequestT` is left there, for no one
reads the line again. -/
def getHostAndPortOfRequest (sslTunnel : Bool) (RequestT : Str) (StartPos : Nat)
    (c : ConnectionToBrowser) : Int × ConnectionToBrowser :=
  if sslTunnel ∧ c.RequestType = connectMethod then c.connectRequest RequestT
  else if c.Transparent then c.transparentRequest RequestT StartPos
  else if findFrom (UpperCase (httpText ++ schemeEnd)) StartPos (UpperCase RequestT) =
      some StartPos then
    { c with RequestProtocol := httpText }.urlRequest RequestT (StartPos + 7)
  else if findFrom (UpperCase (ftpText ++ schemeEnd)) StartPos (UpperCase RequestT) =
      some StartPos then
    { c with RequestProtocol := ftpText }.urlRequest RequestT (StartPos + 6)
  else (-201, c)

/-- `AnalyseFirstHeaderLine` -/
def analyseFirstHeaderLine (sslTunnel : Bool) (RequestT : Str) (c : ConnectionToBrowser) :
    Int × ConnectionToBrowser :=
  match Methods.find? fun m => find (m ++ [' ']) (UpperCase RequestT) = some 0 with
  | some m =>
    { c with RequestType := m }.getHostAndPortOfRequest sslTunnel RequestT (m.length + 1)
  | none => (-202, c)

/-! ## Writing a request line -/

/-- `PortString` -/
def portString (c : ConnectionToBrowser) : Str :=
  if c.Port ≠ 80 ∧ c.Port ≠ 21 then ':' :: longText c.Port else []

/-- `%3A` and `%40` for `:` and `@`. -/
def escapeLogin (login : Str) : Str :=
  (searchReplace (searchReplace login [':'] ['%', '3', 'A']).2 ['@'] ['%', '4', '0']).2

/-- `AuthString` -/
def authString (c : ConnectionToBrowser) : Str :=
  if c.FtpUser = [] then []
  else if c.FtpPass = [] then escapeLogin c.FtpUser ++ ['@']
  else escapeLogin c.FtpUser ++ ':' :: escapeLogin c.FtpPass ++ ['@']

/-- The request line that `PrepareHeaderForServer` writes, up to the protocol version. -/
def forwardedRequest (UseParentProxy : Bool) (c : ConnectionToBrowser) : Str :=
  if UseParentProxy then
    if c.RequestProtocol = httpText then
      c.RequestType ++ ' ' :: (httpText ++ schemeEnd) ++ c.Host ++ c.portString ++ c.Request
    else if c.RequestProtocol = ftpText then
      c.RequestType ++ ' ' :: (ftpText ++ schemeEnd) ++ c.authString ++ c.Host ++ c.portString ++
        c.Request
    else if c.RequestProtocol = connectText then connectMethod ++ ' ' :: c.Request
    else []
  else c.RequestType ++ ' ' :: c.Request

/-- The request line of `PrepareHeaderForServer`; for another protocol there is none. -/
def requestLine (UseParentProxy : Bool) (c : ConnectionToBrowser) : Str :=
  if c.forwardedRequest UseParentProxy = [] then []
  else c.forwardedRequest UseParentProxy ++ ' ' :: http10

end ConnectionToBrowser

end Haarp
