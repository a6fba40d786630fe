import Haarp.Cache.Connection

/-!
# The decision of Cache

`Connection.cache` is `ConnectionToHTTP2::Cache`. What it asks the outside world is in `Asked`: the
answer of the plugin, what the queries find, and which of the directories of `CACHEDIR` have the file
or space for it. The queries find anything here, whatever the statements before them have done, so
that other connections may come in between.
-/

namespace Haarp

/-- A directory of `CACHEDIR`: whether the file is there, and whether `disk_use` is within the
limit. -/
structure Directory where
  file_exists : Bool
  space : Bool
  deriving DecidableEq, Repr

/-- The row that `SELECT size, rg, pos, users` finds. -/
structure SelectedRow where
  size : Int
  rg : Str
  pos : Str
  deriving DecidableEq, Repr

/-- What one call of `Cache` asks for. A query is `none` when it fails and `some none` when it finds
no row. -/
structure Asked where
  /-- The answer of the plugin for the URL, if there is a plugin for the domain. -/
  plugin : Option Resposta
  found : Option (Option LockRow)
  directories : List Directory
  selected : Option (Option SelectedRow)
  deriving DecidableEq, Repr

/-- What is forgotten at the start of `Cache`. -/
def Connection.cacheStart (c : Connection) : Connection :=
  { c with
    hasupdate := false, miss2hit := false, haveUpdateDB := false, count_wait := 0
    exists_transaction_editing_file := true, was_liberate := false, hit := false
    r := { c.r with isMatch := false }, rewrited := false, passouheader := false, etag := false
    limit := 0, np := 0, passed := [], brange := [], lranges := [], readFileHeader := [] }

/-- The loop over the directories: whether one has the file, and whether one before it has space.
`none` is a netflix name of less than three parts. -/
def searchDirectories (file : Str) (isNetflix : Bool) :
    Bool → List Directory → Option (Bool × Bool)
  | disco_con_espacio, [] => some (false, disco_con_espacio)
  | disco_con_espacio, dir :: dirs =>
    if isNetflix ∧ (splitstring file DELIM).length < 3 then none
    else if dir.file_exists then some (true, disco_con_espacio)
    else searchDirectories file isNetflix (disco_con_espacio || dir.space) dirs

/-- The row of a file that is not on disk is reset, unless it is new. -/
def Connection.resetRow (db : Db) (c : Connection) : Connection :=
  if c.operation ≠ some .insert then
    let (ok, c) := c.set db (.reset c.r.key c.r.total_file_size)
    if ok then c else c.giveUp
  else c

/-- The file is not on disk. -/
def Connection.fileMissing (db : Db) (disco_con_espacio : Bool) (c : Connection) : Connection :=
  let c := { c with lranges := [] }
  let c := if c.range_max > 0 then c.plan else c
  if disco_con_espacio then c.resetRow db else c.giveUp

/-- The size that the plugin knows is recorded, if the row has none. -/
def Connection.learnSize (db : Db) (c : Connection) : Connection :=
  if c.size_orig_file = 0 ∧ c.r.total_file_size ≠ 0 then
    { (c.set db (.setSize c.r.key c.r.total_file_size)).2 with size_orig_file := c.r.total_file_size }
  else c

/-- The list of the row; a list that cannot be read is forgotten. -/
def Connection.loadRanges (db : Db) (row : SelectedRow) (c : Connection) : Connection :=
  match generateList row.rg row.pos with
  | (true, lranges) => { c with lranges }
  | (false, _) => { (c.set db (.resetRanges c.r.key)).2 with lranges := [] }

/-- The plan for a file on disk. -/
def Connection.planStored (c : Connection) : Option Connection :=
  if c.size_orig_file ≠ 0 then c.sizeKnown else some c.sizeUnknown

/-- The file is on disk and in the database. -/
def Connection.fileStored (db : Db) (row : SelectedRow) (c : Connection) : Option Connection :=
  let c := { c with size_orig_file := row.size }
  if c.r.total_file_size > 0 ∧ c.size_orig_file ≠ 0 ∧ c.size_orig_file ≠ c.r.total_file_size then
    some (c.giveUp.liberateEdition db)
  else
    (((c.learnSize db).loadRanges db row).planStored).map fun c =>
      if c.hit then (c.set db (.lastRequest c.r.key)).2 else c

/-- The file is on disk. -/
def Connection.fileFound (db : Db) (selected : Option (Option SelectedRow)) (c : Connection) :
    Option Connection :=
  let c := { c with operation := some .select }
  match selected with
  | none | some none => some (c.giveUp.liberateEdition db)
  | some (some row) => c.fileStored db row

/-- `rewrite` -/
def rewriteDomain : Str := ['r', 'e', 'w', 'r', 'i', 't', 'e']

/-- `Cache` behind `lockFile`, for a connection that may use the entry. -/
def Connection.useEntry (db : Db) (asked : Asked) (c : Connection) : Option Connection :=
  let c := { c with exists_transaction_editing_file := false }
  match searchDirectories c.r.file (c.r.domain = netflix) false asked.directories with
  | none => some c.giveUp
  | some (file_in_cache, disco_con_espacio) =>
    let sized : Option Connection :=
      if c.range_max > 0 then
        (llong (c.range_max - c.range_min + 1)).map fun filesizeneto => { c with filesizeneto }
      else some c
    sized.bind fun c =>
    if c.r.domain = rewriteDomain then
      some { c with r := { c.r with isMatch := false }, rewrited := true }
    else if ¬ file_in_cache then some (c.fileMissing db disco_con_espacio)
    else c.fileFound db asked.selected

/-- `lockFile` -/
def Connection.lockFile (db : Db) (found : Option (Option LockRow)) (c : Connection) :
    Option (Int × Connection) :=
  (Haarp.lockFile db (c.r.domain = netflix) found c.toTransfer).map fun (lfile, t) =>
    (lfile, { c with toTransfer := t })

/-- The start of `Cache`: the plugin of the domain is asked. -/
def Connection.ask (asked : Asked) (c : Connection) : Connection :=
  let c := c.cacheStart
  match asked.plugin with
  | some r =>
    let (r, limits) := chooseRange r c.toLimits
    { c with r, toLimits := limits }
  | none => c

/-- `Cache`. Without the general plugin it returns no error. -/
def Connection.cache (db : Db) (asked : Asked) (c : Connection) : Option Connection :=
  let c := c.ask asked
  if c.r.isMatch then
    (c.lockFile db asked.found).bind fun (lfile, c) =>
      if lfile ≤ 0 then some { c.giveUp with exists_transaction_editing_file := true }
      else c.useEntry db asked
  else some c

end Haarp
