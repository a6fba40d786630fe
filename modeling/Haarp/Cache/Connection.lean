import Haarp.Cache.Lock

/-!
# The decision for a request

`ConnectionToHTTP2::Cache`, with what comes before it for each request: `initializeVariables` forgets
the last one and `getLimitBytes` reads the `Range` header. `Cache` asks the plugin of the domain,
takes the row of the entry, looks for its file, and plans the request: it is a hit when every byte of
the range is stored.

The general plugin is not installed. The cache of static files is left out: its condition asks for a
request without any character but those of a set that `/` is not in, and every request starts with
`/`. Plugins that name no resource give `isMatch = false`. What the source does not define (an
exception that nobody catches, an overflow of a `long long int`) is `none`.
-/

namespace Haarp

/-- The members that `getLimitBytes` sets. -/
structure Limits where
  range_min : Int
  range_max : Int
  isPartial : Bool
  origin_header : Str
  deriving DecidableEq, Repr

/-- The members of `ConnectionToHTTP2`; `HTMLResponse` to `IsChunked` are what `AnalyseHeader` has
read of the last header of the server. -/
structure Connection extends Transfer, Limits where
  size_orig_file : Int
  flag_change_top_range_max : Bool
  flag_truncate_top_range_max : Bool
  flag_truncate_old_range_max : Int
  rewrited : Bool
  passouheader : Bool
  etag : Bool
  readFileHeader : Str
  haveUpdateDB : Bool
  HTMLResponse : Int
  ContentLength : Int
  IsKeepAlive : Bool
  IsChunked : Bool
  deriving DecidableEq

/-- `ToServer` before the first request. The source leaves its numbers and flags without a value; each
is set before it is read. -/
def Connection.new : Connection :=
  { r := ⟨false, [], [], 0, 0, 0, false⟩, hit := false, miss2hit := false, lranges := [], passed := []
    brange := [], acumulate := 0, bwrite := false, limit := 0, np := 0, count_wait := 0
    timerecord := 0, hasupdate := false, filesended := 0, oldfilesended := 0, filesizeneto := 0
    isOpen := false, offset := 0, failed := false, exists_transaction_editing_file := true
    was_liberate := false, connected := false, operation := none, log := [], range_min := 0
    range_max := 0, isPartial := false, origin_header := [], size_orig_file := 0
    flag_change_top_range_max := false, flag_truncate_top_range_max := false
    flag_truncate_old_range_max := -2, rewrited := false, passouheader := false, etag := false
    readFileHeader := [], haveUpdateDB := false, HTMLResponse := 0, ContentLength := -1
    IsKeepAlive := false, IsChunked := false }

def Connection.set (db : Db) (c : Connection) (s : Stmt) : Bool × Connection :=
  let (ok, t) := c.toTransfer.set db s
  (ok, { c with toTransfer := t })

def Connection.liberateEdition (db : Db) (c : Connection) : Connection :=
  { c with toTransfer := Haarp.liberateEdition db c.toTransfer }

/-- `r.match = hit = false` -/
def Connection.giveUp (c : Connection) : Connection :=
  { c with r := { c.r with isMatch := false }, hit := false }

def initializeVariables (c : Connection) : Connection :=
  { c with
    acumulate := 0, bwrite := false, oldfilesended := 0, filesizeneto := 0, size_orig_file := 0
    filesended := 0, exists_transaction_editing_file := true, flag_change_top_range_max := false
    flag_truncate_top_range_max := false, flag_truncate_old_range_max := -2 }

/-! ## The Range header -/

/-- `Range: bytes=` -/
def rangeBytes : Str := ['R', 'a', 'n', 'g', 'e', ':', ' ', 'b', 'y', 't', 'e', 's', '=']

/-- `Origin:` -/
def origin : Str := ['O', 'r', 'i', 'g', 'i', 'n', ':']

/-- The variables of the loop of `getLimitBytes`; `value` and `rangeb` are never cleared. -/
structure LimitScan extends Limits where
  value : List Str
  rangeb : List Str

/-- A line `Range: bytes=..`; the `continue`s of the source only skip the test for `Origin:`. -/
def LimitScan.range (scan : LimitScan) (line : Str) : LimitScan :=
  let scan := { scan with value := scan.value ++ stringexplode line ['='] }
  match scan.value with
  | _ :: bytes :: _ =>
    let scan :=
      { scan with isPartial := true, rangeb := scan.rangeb ++ stringexplode bytes ['-'] }
    match scan.rangeb with
    | [] => scan
    | [a] => { scan with range_min := atoll a, range_max := -1 }
    | a :: b :: _ => { scan with range_min := atoll a, range_max := atoll b }
  | _ => scan

/-- The line `i` of the header; `substr(8)` throws when the line is shorter. -/
def LimitScan.line (scan : LimitScan) (i : Nat) (line : Str) : Option LimitScan :=
  let scan :=
    if i = 0 ∧ (find [' ', '2', '0', '6', ' '] line).isSome ∧
        (find ['H', 'T', 'T', 'P'] line).isSome then
      { scan with isPartial := true }
    else scan
  let scan := if find rangeBytes line = some 0 then scan.range line else scan
  if find origin line = some 0 then
    if line.length < 8 then none else some { scan with origin_header := line.drop 8 }
  else some scan

def getLimitBytesLoop : Nat → LimitScan → List Str → Option LimitScan
  | _, scan, [] => some scan
  | i, scan, line :: lines => (scan.line i line).bind fun scan => getLimitBytesLoop (i + 1) scan lines

/-- `getLimitBytes`; for a header without lines, `lines.size() - 1` is the greatest unsigned number
and `lines.at(0)` throws. -/
def getLimitBytes (header : Str) : Option Limits :=
  let lines := stringexplode header ['\r', '\n']
  if lines.isEmpty then none
  else
    (getLimitBytesLoop 0
      { range_min := 0, range_max := 0, isPartial := false, origin_header := [], value := []
        rangeb := [] } lines).map LimitScan.toLimits

/-! ## The answer of the plugin -/

def youtube : Str := ['y', 'o', 'u', 't', 'u', 'b', 'e']

/-- `"206-" + file`, if there is a file. -/
def partialName (file : Str) : Str := if file.isEmpty then file else ['2', '0', '6', '-'] ++ file

/-- The last `.flv` becomes `.webm`. -/
def webmName (file : Str) : Str :=
  match rfind ['.', 'f', 'l', 'v'] file with
  | some pos => file.take pos ++ ['.', 'w', 'e', 'b', 'm'] ++ file.drop (pos + 4)
  | none => file

/-- The file and the range for the answer `r` of a plugin: the range that the plugin has found in the
URL, unless the browser asks for one with an end. -/
def chooseRange (r : Resposta) (limits : Limits) : Resposta × Limits :=
  let (r, limits) :=
    if ¬ limits.isPartial ∨ limits.range_max = 0 then
      (r, { limits with range_min := r.range_min, range_max := r.range_max })
    else if r.domain = youtube then
      if ¬ r.exist_range then ({ r with file := webmName (partialName r.file) }, limits)
      else ({ r with isMatch := false }, limits)
    else ({ r with file := partialName r.file }, limits)
  (if r.domain ≠ youtube then { r with total_file_size := 0 } else r, limits)

/-! ## The plan -/

/-- A number that a `long long int` holds. -/
def llong (n : Int) : Option Int := if -llongMax - 1 ≤ n ∧ n ≤ llongMax then some n else none

theorem llong_eq_some {n m : Int} : llong n = some m ↔ (-llongMax - 1 ≤ n ∧ n ≤ llongMax) ∧ n = m := by
  unfold llong
  split
  · next h => simp [h]
  · next h => simp only [reduceCtorEq, h, false_and]

/-- `lrangeswork = getRangeWork(lranges, range_min, range_max, &hit)`; the list is sorted in place. -/
def Connection.plan (c : Connection) : Connection :=
  let (lrangeswork, hit) := getRangeWork c.lranges c.range_min c.range_max
  { c with lranges := sortIntervals c.lranges, passed := [], brange := lrangeswork, hit }

/-- A range without an end, or with 0 for it, goes to the last byte of the file. -/
def Connection.changeTop (c : Connection) : Connection :=
  if c.range_max ≤ 0 then
    { c with flag_change_top_range_max := true, range_max := c.size_orig_file - 1 }
  else c

/-- A range that goes beyond the file is truncated. -/
def Connection.truncateTop (c : Connection) : Option Connection :=
  (llong (c.range_min + 1)).bind fun first =>
    if c.size_orig_file > first then
      (llong (c.range_max + 1)).map fun top =>
        if c.size_orig_file < top then
          { c with
            flag_truncate_top_range_max := true, flag_truncate_old_range_max := c.range_max
            range_max := c.size_orig_file - 1 }
        else c
    else some c

/-- The branch of `Cache` for a file of known size. -/
def Connection.sizeKnown (c : Connection) : Option Connection :=
  c.changeTop.truncateTop.bind fun c =>
    (llong (c.range_max - c.range_min + 1)).map fun filesizeneto => { c with filesizeneto }.plan

/-- The branch of `Cache` for a file of unknown size; `Cache2` may plan the request later. -/
def Connection.sizeUnknown (c : Connection) : Connection :=
  if c.range_max > 0 ∧
      (getExtremeb c.lranges < c.range_min ∨ c.range_max ≤ getExtremeb c.lranges) then
    c.plan
  else { c with hit := false }

end Haarp
