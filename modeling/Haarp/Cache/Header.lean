import Haarp.Cache.Connection

/-!
# The header of the response

What `ConnectionToHTTP2::ReadHeader` does with the header that the server sends: it learns the size of
a file that was not known, and plans the request again when the length is not the expected one
(`Cache2`). For a hit it makes a header of its own.

`HeaderText` tells the headers apart that `ReadHeader` leaves; only one that the server sent has a
text here.
-/

namespace Haarp

/-! ## The length that a header announces -/

/-- `Content-Length:` -/
def contentLength : Str :=
  ['C', 'o', 'n', 't', 'e', 'n', 't', '-', 'L', 'e', 'n', 'g', 't', 'h', ':']

/-- The number of the first match of `label + " ?[0-9]+"`, in any case. -/
def matchNumber (label : Str) : Str → Option Str
  | [] => none
  | c :: line =>
    let rest := (c :: line).drop label.length
    let rest := if rest.head? = some ' ' then rest.tail else rest
    let digits := rest.takeWhile Char.isDigit
    if UpperCase label <+: UpperCase (c :: line) ∧ digits ≠ [] then some digits
    else matchNumber label line

/-- `getValuesHeader(header, label, V_INT)`; `regexec` reads a line up to a NUL. -/
def getValuesHeader (header label : Str) : Option Str :=
  (stringexplode header ['\r', '\n']).findSome? fun line =>
    matchNumber label (line.takeWhile (· ≠ '\x00'))

def isForCache (header : Str) : Bool :=
  (stringexplode header ['\r', '\n']).all fun line =>
    ¬ (find ['H', 'T', 'T', 'P'] line = some 0 ∧ find ['2', '0', '0'] line = none ∧
      find ['2', '0', '6'] line = none)

def getOnlyContentLength (header : Str) : Int :=
  if ¬ isForCache header then -1
  else
    match getValuesHeader header contentLength with
    | some scl => atoll scl
    | none => -1

/-! ## The size of the file -/

/-- `Content-Range: bytes` -/
def contentRange : Str :=
  ['C', 'o', 'n', 't', 'e', 'n', 't', '-', 'R', 'a', 'n', 'g', 'e', ':', ' ', 'b', 'y', 't', 'e', 's']

/-- The text behind the first `/` of the first line `Content-Range: bytes` that has one; `value` is
never cleared. -/
def partialSize : List Str → List Str → Option Str
  | _, [] => none
  | value, line :: lines =>
    if find contentRange line = some 0 then
      match value ++ stringexplode line ['/'] with
      | _ :: size :: _ => some size
      | value => partialSize value lines
    else partialSize value lines

/-- `UpdateFileSizeinPartial`; for a header without lines `lines.at(1)` throws. -/
def Connection.updateFileSizeinPartial (db : Db) (header : Str) (c : Connection) :
    Option Connection :=
  match stringexplode header ['\r', '\n'] with
  | [] => none
  | _ :: lines =>
    match partialSize [] lines with
    | some size =>
      let c := { c with size_orig_file := atoll size }
      some (c.set db (.setSize c.r.key c.size_orig_file)).2
    | none => some c

/-! ## Planning again -/

/-- `Cache2` records the size of the file `total`, when it was not known or not the expected one. -/
def Connection.resize (db : Db) (cl total : Int) (c : Connection) : Connection :=
  let c : Connection :=
    if c.flag_truncate_top_range_max then
      { c with range_max := c.flag_truncate_old_range_max, passed := [], brange := [] }
    else c
  let c : Connection :=
    if c.flag_change_top_range_max then { c with range_max := cl - 1, passed := [], brange := [] }
    else c
  let c := { c with size_orig_file := total }
  (c.set db (.setSize c.r.key c.size_orig_file)).2

/-- `Cache2` records a size. -/
def Connection.Resizes (c : Connection) : Prop :=
  (c.size_orig_file = 0 ∧ c.range_max ≤ 0) ∨ c.flag_change_top_range_max = true ∨
    c.flag_truncate_top_range_max = true

instance (c : Connection) : Decidable c.Resizes :=
  inferInstanceAs (Decidable ((c.size_orig_file = 0 ∧ c.range_max ≤ 0) ∨
    c.flag_change_top_range_max = true ∨ c.flag_truncate_top_range_max = true))

/-- `Cache2` plans up to the last byte of the file. -/
def Connection.moveTop (total : Int) (c : Connection) : Connection :=
  if c.range_max ≤ 0 ∨ c.range_max ≠ total - 1 then
    { c with range_max := total - 1, passed := [], brange := [] }
  else c

/-- The end of `Cache2`: an empty plan is made anew. -/
def Connection.replan (db : Db) (c : Connection) : Connection :=
  if c.lrangeswork.isEmpty then
    let c := c.plan
    if c.hit then (c.set db (.lastRequest c.r.key)).2 else c
  else c

/-- `Cache2(cl)` -/
def Connection.cache2 (db : Db) (cl : Int) (c : Connection) : Option Connection :=
  (llong (cl + c.range_min)).map fun total =>
    let c := if c.Resizes then c.resize db cl total else c
    { c.moveTop total with filesizeneto := cl }.replan db

/-! ## ReadHeader -/

/-- The header that `ReadHeader` leaves. -/
inductive HeaderText
  | server (text : Str)
  | moved
  | notModified
  | hit
  deriving DecidableEq, Repr

/-- `ReadHeader` for a file of unknown size: the value, and whether it returns there. `read` is what
`ReadHeaderFromServer` returns and the header it leaves. -/
def Connection.readUnknown (db : Db) (read : Bool × Str) (c : Connection) :
    Option (Bool × Connection) :=
  let sized : Option Connection :=
    if c.isPartial then
      (c.updateFileSizeinPartial db read.2).map fun c =>
        if c.range_max ≤ 0 then { c with range_max := c.size_orig_file - 1 } else c
    else some c
  sized.bind fun c =>
    let cl := getOnlyContentLength read.2
    if cl < 0 then some (true, c) else (c.cache2 db cl).map fun c => (false, c)

/-- The end of `ReadHeader` for a response that is passed on or stored. -/
def Connection.readMissed (db : Db) (read : Bool × Str) (c : Connection) :
    Option (Bool × HeaderText × Connection) :=
  let cl := getOnlyContentLength read.2
  let c : Option Connection :=
    if ¬ c.isPartial ∧ cl ≥ 0 ∧ cl ≠ c.size_orig_file then c.cache2 db cl else some c
  c.map fun c => (read.1, .server read.2, c)

/-- The end of `ReadHeader`; `result` is the header that was read before. -/
def Connection.makeHeader (db : Db) (result : Option Str) (again : Bool × Str) (c : Connection) :
    Option (Bool × HeaderText × Connection) :=
  if c.rewrited then some (true, .moved, c)
  else if c.hit ∧ c.etag then
    some (true, .notModified, ({ c with rewrited := true }.giveUp).liberateEdition db)
  else if c.hit then some (true, .hit, c)
  else
    match result with
    | some text => some (true, .server text, c)
    | none => c.readMissed db again

/-- `ReadHeader`: whether there is a header, and the header. `again` is a second read, which only
happens when the first one fails. -/
def Connection.readHeader (db : Db) (read again : Bool × Str) (c : Connection) :
    Option (Bool × HeaderText × Connection) :=
  if c.size_orig_file = 0 ∧ c.r.isMatch ∧ ¬ c.hit then
    (c.readUnknown db read).bind fun (stop, c) =>
      if stop then some (read.1, .server read.2, c)
      else c.makeHeader db (if read.1 then some read.2 else none) again
  else c.makeHeader db none read

/-! ## What is asked of the header -/

/-- What `AnalyseHeader` reads of a header of the server. -/
structure Analysed where
  HTMLResponse : Int
  ContentLength : Int
  IsKeepAlive : Bool
  IsChunked : Bool
  deriving DecidableEq, Repr

/-- `AnalyseHeader`, in the state that `ClearVars` leaves. The headers `moved` and `notModified` close
the connection. -/
def Connection.analyseHeader (analysed : Analysed) (header : HeaderText) (c : Connection) :
    Connection :=
  match header with
  | .hit => c
  | .moved =>
    { c with HTMLResponse := 302, ContentLength := 0, IsKeepAlive := false, IsChunked := false }
  | .notModified =>
    { c with HTMLResponse := 304, ContentLength := -1, IsKeepAlive := false, IsChunked := false }
  | .server _ =>
    { c with
      HTMLResponse := analysed.HTMLResponse, ContentLength := analysed.ContentLength
      IsKeepAlive := analysed.IsKeepAlive, IsChunked := analysed.IsChunked }

/-- The text behind the last `.`, in upper case. -/
def getFileExtension (file : Str) : Str :=
  match rfind ['.'] file with
  | some pos => UpperCase (file.drop (pos + 1))
  | none => UpperCase file

/-- The length of the response is outside the bounds that the configuration sets for the name. -/
def outOfBounds (config : Str → Int) (name : Str) (n : Int) : Prop :=
  n < config (name ++ ['_', 'M', 'I', 'N']) ∨
    (n > config (name ++ ['_', 'M', 'A', 'X']) ∧ config (name ++ ['_', 'M', 'A', 'X']) > 0)

instance (config : Str → Int) (name : Str) (n : Int) : Decidable (outOfBounds config name n) :=
  inferInstanceAs (Decidable (n < config (name ++ ['_', 'M', 'I', 'N']) ∨
    (n > config (name ++ ['_', 'M', 'A', 'X']) ∧ config (name ++ ['_', 'M', 'A', 'X']) > 0)))

/-- `GetContentLength`; a response outside the bounds is not cached. -/
def Connection.getContentLength (db : Db) (config : Str → Int) (c : Connection) : Int × Connection :=
  if c.hit then (c.filesizeneto, c)
  else if c.r.isMatch ∧ (outOfBounds config (getFileExtension c.r.file) c.ContentLength ∨
      outOfBounds config (UpperCase c.r.domain) c.ContentLength) then
    (c.ContentLength, { c with r := { c.r with isMatch := false } }.liberateEdition db)
  else (c.ContentLength, c)

/-- `GetResponse`; only responses 200 and 206 are cached. -/
def Connection.getResponse (db : Db) (c : Connection) : Int × Connection :=
  if c.hit then (200, c)
  else if c.r.isMatch ∧ c.HTMLResponse ≠ 200 ∧ c.HTMLResponse ≠ 206 then
    (c.HTMLResponse, c.giveUp.liberateEdition db)
  else (c.HTMLResponse, c)

/-- `IsItKeepAlive` -/
def Connection.isItKeepAlive (c : Connection) : Bool := c.hit || c.IsKeepAlive

/-- `IsItChunked` -/
def Connection.isItChunked (c : Connection) : Bool := !c.hit && c.IsChunked

end Haarp
