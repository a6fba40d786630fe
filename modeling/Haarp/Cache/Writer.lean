import Haarp.Base.Layout
import Haarp.Cache.Store

/-!
# The body of a cached response

`ConnectionToHTTP2::ReadBodyPart` for a request that uses a cache entry, with `Update` and
`SubUpdate`. One call handles one piece of the body: a miss takes it from the server and writes it
to the cache file, a hit (or a miss turned into a hit, `miss2hit`) reads it from the cache file.

`lrangeswork` is the plan; the iterator `brange` splits it in two, the nodes before it and those from
it on, so `*brange` is the head of `brange` and `end()` is the empty list. The cache file is the list
of its bytes; writes reach it at once (the source flushes before each record). What dereferences
`end()` or seeks before the file is `none`.
-/

namespace Haarp

open Base

/-- `resposta`, the answer of a plugin; `isMatch` is its field `match`. -/
structure Resposta where
  isMatch : Bool
  domain : Str
  file : Str
  range_min : Int
  range_max : Int
  total_file_size : Int
  exist_range : Bool
  deriving DecidableEq, Repr

def Resposta.key (r : Resposta) : Key := { domain := r.domain, file := r.file }

/-- The members of `ConnectionToHTTP2` that move a body and record it. -/
structure Transfer where
  r : Resposta
  hit : Bool
  miss2hit : Bool
  lranges : LintervalPositionByteDisk
  /-- The nodes of `lrangeswork` before `brange`. -/
  passed : LintervalPositionByteDisk
  /-- The nodes of `lrangeswork` from `brange` on. -/
  brange : LintervalPositionByteDisk
  acumulate : Int
  bwrite : Bool
  limit : Int
  np : Int
  count_wait : Int
  timerecord : Int
  hasupdate : Bool
  filesended : Int
  oldfilesended : Int
  filesizeneto : Int
  /-- `cachefile.is_open()`, its offset, and whether a read has failed. -/
  isOpen : Bool
  offset : Int
  failed : Bool
  exists_transaction_editing_file : Bool
  was_liberate : Bool
  /-- `domaindb.isconnect()` -/
  connected : Bool
  operation : Option Operation
  log : Log
  deriving DecidableEq, Repr

def Transfer.lrangeswork (t : Transfer) : LintervalPositionByteDisk := t.passed ++ t.brange

def MAXRECV : Int := 14600

/-! ## Statements -/

/-- `Database::set`: the outcome and the state with the statement in its log. -/
def Transfer.set (db : Db) (t : Transfer) (s : Stmt) : Bool × Transfer :=
  let ok := db t.log s
  (ok, { t with operation := s.operation.or t.operation, log := t.log ++ [(s, ok)] })

/-- `liberate_edition`; the test its callers make before is its own first test. -/
def liberateEdition (db : Db) (t : Transfer) : Transfer :=
  if t.was_liberate ∨ t.exists_transaction_editing_file then t
  else
    let (ok, t) := t.set db (.liberate t.r.key)
    { t with was_liberate := ok }

/-- The statement of `Update` and `SubUpdate` that writes `lranges` back. -/
def Transfer.recordStmt (t : Transfer) : Stmt :=
  let (rang_, part_) := list2string t.lranges
  .record t.r.key rang_ part_ (getFileSize t.lranges) t.np

/-- `SubUpdate` -/
def subUpdate (db : Db) (t : Transfer) : Transfer := (t.set db t.recordStmt).2

/-- The start of `Update` for a miss: the bytes of the current block so far become stored. -/
def appendCurrent (t : Transfer) : Transfer :=
  match t.brange with
  | blk :: rest =>
    if t.acumulate ≠ 0 ∧ t.bwrite then
      let blk := { blk with b := blk.a + t.acumulate - 1 }
      { t with brange := blk :: rest, lranges := appendNode t.lranges blk }
    else t
  | [] => t

/-- `Update` of a miss. -/
def updateMiss (db : Db) (t : Transfer) : Transfer :=
  let t := appendCurrent t
  let t :=
    if t.hasupdate then t
    else
      let t := if t.connected then (t.set db t.recordStmt).2 else t
      liberateEdition db { t with hasupdate := true }
  { t with acumulate := 0 }

/-- `Update` of a hit. -/
def updateHit (db : Db) (t : Transfer) : Transfer :=
  if ¬ t.hasupdate ∧ t.filesended ≠ 0 then
    let t := if t.connected then (t.set db (.requested t.r.key t.filesended)).2 else t
    { t with hasupdate := true }
  else t

/-- `Update` -/
def update (db : Db) (t : Transfer) : Transfer :=
  let t := if t.r.isMatch ∧ ¬ t.hit then updateMiss db t else if t.hit then updateHit db t else t
  let t := if t.r.isMatch then liberateEdition db t else t
  { t with lranges := [], passed := [], brange := [] }

/-! ## Writing a piece -/

/-- Moves to the block at `brange`: a block that is not stored goes to the end of the file and will
be stored (`bwrite`), a stored one is written over at its place. -/
def enterBlock (t : Transfer) : Option Transfer :=
  match t.brange with
  | [] => none
  | blk :: rest =>
    let bwrite := decide (blk.position < 0)
    let blk := if bwrite then { blk with position := getPointEnd t.lranges } else blk
    some { t with brange := blk :: rest, bwrite, offset := blk.position, limit := blk.b - blk.a + 1 }

/-- Opens the cache file for a miss. -/
def openMiss (t : Transfer) : Option Transfer :=
  enterBlock
    { t with passed := [], brange := t.lrangeswork, acumulate := 0, isOpen := true, failed := false }

/-- The block at `brange` is written: it is stored if it was not (`bwrite`), and `brange` moves on. -/
def leaveBlock (t : Transfer) : Transfer :=
  match t.brange with
  | blk :: rest =>
    let t := { t with passed := t.passed ++ [blk], brange := rest, acumulate := 0 }
    if t.bwrite then { t with np := t.np + 1, lranges := appendNode t.lranges blk } else t
  | [] => t

/-- From a stored block on, a plan without missing blocks turns the miss into a hit. -/
def turnToHit (t : Transfer) : Transfer :=
  { t with miss2hit := t.miss2hit || (!t.bwrite && isAllHit t.brange) }

/-- `cachefile.write` -/
def writeBytes (t : Transfer) (file : Str) (d : Str) : Transfer × Str :=
  ({ t with offset := t.offset + d.length, filesended := t.filesended + d.length },
    writeAt '\x00' file t.offset.toNat d)

/-- How the loop over the blocks ends that the piece fills: the rest of the piece fits in the current
block, or the plan is used up. -/
inductive WriteLoop
  | fits (t : Transfer) (file body : Str)
  | overflow (t : Transfer) (file : Str)

/-- The loop `while (acumulate + BodyLength > limit)`; `rest` is the plan behind `brange`. -/
def writeLoop (t : Transfer) (file body : Str) (rest : LintervalPositionByteDisk) :
    Option WriteLoop :=
  if t.acumulate + body.length > t.limit then
    if t.limit < t.acumulate then none
    else
      let btmp := (t.limit - t.acumulate).toNat
      let (t, file) := writeBytes t file (body.take btmp)
      let t := leaveBlock t
      match rest with
      | [] => some (.overflow t file)
      | _ :: rest =>
        (enterBlock t).bind fun t => writeLoop (turnToHit t) file (body.drop btmp) rest
  else some (.fits t file body)

/-- What a call of `ReadBodyPart` leaves: its value, the piece for the browser, the state and the
cache file. -/
structure BodyPart where
  BodyLength : Int
  bodyT : Str
  t : Transfer
  file : Str
  deriving DecidableEq, Repr

/-- The save of the block so far, every 16th time the timer of 1.2 seconds is found expired. -/
def heartbeat (db : Db) (now : Int) (t : Transfer) : Transfer :=
  if (now - t.timerecord) * 10 > 12 then
    let t := { t with timerecord := now, count_wait := t.count_wait + 1 }
    match t.brange with
    | blk :: rest =>
      if t.count_wait > 15 ∧ t.acumulate ≠ 0 ∧ t.bwrite then
        let lranges := appendSubNode t.lranges blk t.acumulate
        let blk :=
          { blk with a := blk.a + t.acumulate, position := blk.position + t.acumulate }
        let t :=
          { t with
            count_wait := 0, lranges, brange := blk :: rest, limit := t.limit - t.acumulate
            acumulate := 0 }
        { subUpdate db t with oldfilesended := t.filesended }
      else t
    | [] => t
  else t

/-- Behind a block that the piece filled exactly: the end of the response, or the next block. -/
def nextBlock (db : Db) (now : Int) (t : Transfer) (file bodyT : Str) : Option BodyPart :=
  if t.brange.isEmpty ∧ t.filesended = t.filesizeneto then
    some { BodyLength := bodyT.length, bodyT, t, file }
  else if t.brange.isEmpty ∨ t.filesended = t.filesizeneto then
    some { BodyLength := -1, bodyT, t := { t with isOpen := false }, file }
  else
    (enterBlock t).map fun t =>
      { BodyLength := bodyT.length, bodyT, t := heartbeat db now (turnToHit t), file }

/-- The end of a miss call: the rest of the piece `bodyT` fits in the current block. -/
def writeTail (db : Db) (now : Int) (t : Transfer) (file rest bodyT : Str) : Option BodyPart :=
  let (t, file) := writeBytes t file rest
  let t := { t with acumulate := t.acumulate + rest.length }
  if t.acumulate = t.limit then nextBlock db now (leaveBlock t) file bodyT
  else some { BodyLength := bodyT.length, bodyT, t := heartbeat db now t, file }

/-- The piece is longer than the plan. -/
def writeOverflow (db : Db) (t : Transfer) (file bodyT : Str) : BodyPart :=
  let t := { t with r := { t.r with isMatch := false }, hit := false, isOpen := false }
  { BodyLength := -1, bodyT, t := liberateEdition db t, file }

/-- `ReadBodyPart` of a miss on the piece `recv` that the server sent (`none` is an error of the
socket). -/
def readMiss (db : Db) (now : Int) (t : Transfer) (file : Str) (recv : Option Str) :
    Option BodyPart :=
  (if t.isOpen then some t else openMiss t).bind fun t =>
    match recv with
    | none => some { BodyLength := -1, bodyT := [], t, file }
    | some [] => some { BodyLength := 0, bodyT := [], t, file }
    | some bodyT =>
      (writeLoop t file bodyT t.brange.tail).bind fun
        | .overflow t file => some (writeOverflow db t file bodyT)
        | .fits t file rest => writeTail db now t file rest bodyT

/-! ## Reading a piece -/

/-- Opens the cache file for a hit; it is closed again when the first block is not stored. -/
def openHit (now : Int) (t : Transfer) : Option Transfer :=
  match t.lrangeswork with
  | [] => none
  | blk :: rest =>
    let t := { t with passed := [], brange := blk :: rest, acumulate := 0, bwrite := false }
    if blk.position < 0 then
      some { t with r := { t.r with isMatch := false }, hit := false, isOpen := false }
    else
      some
        { t with
          isOpen := true, failed := false, offset := blk.position, limit := blk.b - blk.a + 1
          timerecord := now }

/-- One read of the cache file; a short one makes every later one fail. -/
def readBytes (t : Transfer) (file : Str) : Str × Transfer :=
  let tbuffer := if t.acumulate + MAXRECV > t.limit then t.limit - t.acumulate else MAXRECV
  let d := if t.failed then [] else readAt file t.offset.toNat tbuffer.toNat
  (d, { t with offset := t.offset + d.length, failed := t.failed ∨ (d.length : Int) < tbuffer })

/-- After a read: a block read to its end is left. -/
def advance (now : Int) (t : Transfer) (n : Int) : Transfer :=
  let t :=
    { t with filesended := t.filesended + n, acumulate := t.acumulate + n, timerecord := now }
  if t.acumulate = t.limit then
    match t.brange with
    | blk :: rest =>
      let t := { t with passed := t.passed ++ [blk], brange := rest, acumulate := 0 }
      match rest with
      | [] => t
      | blk :: _ => { t with offset := blk.position, limit := blk.b - blk.a + 1 }
    | [] => t
  else t

/-- A read with the step that follows it. -/
def readBlock (now : Int) (t : Transfer) (file : Str) : Str × Transfer :=
  let (d, t) := readBytes t file
  (d, if d.isEmpty then t else advance now t d.length)

/-- `ReadBodyPart` of a hit. A read that yields nothing is repeated until a timeout of 10 seconds;
the file is closed then, as it is by the two tests for the end. -/
def readHit (db : Db) (now : Int) (t : Transfer) (file : Str) : Option BodyPart :=
  (if t.isOpen then some t else openHit now t).map fun t =>
    if ¬ t.isOpen then { BodyLength := -1, bodyT := [], t := liberateEdition db t, file }
    else
      let expired := now - t.timerecord ≥ 10
      let (d, t) := readBlock now t file
      if ¬ (d.isEmpty ∧ expired) ∧ t.brange.isEmpty ∧ t.filesended = t.filesizeneto then
        { BodyLength := d.length, bodyT := d, t := { t with isOpen := false }, file }
      else if t.brange.isEmpty ∨ t.filesended = t.filesizeneto ∨ d.isEmpty then
        { BodyLength := -1, bodyT := d, t := { t with isOpen := false }, file }
      else { BodyLength := d.length, bodyT := d, t, file }

/-- `ReadBodyPart` of a request that uses a cache entry. -/
def readBodyPart (db : Db) (now : Int) (t : Transfer) (file : Str) (recv : Option Str) :
    Option BodyPart :=
  if t.hit ∨ t.miss2hit then readHit db now t file else readMiss db now t file recv

end Haarp
