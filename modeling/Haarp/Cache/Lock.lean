import Haarp.Cache.Frame

/-!
# The lock of a row

`ConnectionToHTTP2::lockFile`: the transaction by which a connection takes the row of an entry. A row
is free when `file_used` is 0, or when it was neither modified nor requested for more than 30
seconds. It is released by `liberate_edition`.

What the transaction finds is an argument: `none` is an error of the `SELECT .. FOR UPDATE`, `some
none` an answer without rows. A row of a netflix entry is found by a part of its name (`singleDomain`)
and gives the request its full one.
-/

namespace Haarp

/-- The row that `lockFile` finds; `difftime` is `none` for NULL. -/
structure LockRow where
  file : Str
  difftime : Option Bool
  file_used : Bool
  deriving DecidableEq, Repr

def netflix : Str := ['n', 'e', 't', 'f', 'l', 'i', 'x']

/-- `_-DELHAARP-_` -/
def DELIM : Str := ['_', '-', 'D', 'E', 'L', 'H', 'A', 'A', 'R', 'P', '-', '_']

/-- The text before the first `separator` and the one behind it. -/
def splitAtFirst (separator : Str) : Str → Option (Str × Str)
  | [] => none
  | c :: str =>
    if separator.isPrefixOf (c :: str) then some ([], (c :: str).drop separator.length)
    else (splitAtFirst separator str).map fun (l, r) => (c :: l, r)

/-- `splitstring`; an empty piece is left out. `fuel` bounds the pieces by the length. -/
def splitstringLoop (separator : Str) : Nat → Str → List Str
  | 0, _ => []
  | fuel + 1, str =>
    match splitAtFirst separator str with
    | some (l, r) =>
      if l.isEmpty then splitstringLoop separator fuel r
      else l :: splitstringLoop separator fuel r
    | none => if str.isEmpty then [] else [str]

def splitstring (str separator : Str) : List Str := splitstringLoop separator (str.length + 1) str

/-- The `UPDATE` that takes the row. -/
def lockRow (db : Db) (t : Transfer) : Int × Transfer :=
  let (ok, t) := t.set db (.lock t.r.key)
  if ok then (1, (t.set db .commit).2) else (-1, (t.set db .rollback).2)

/-- `lockFile` behind `START TRANSACTION`. -/
def lockFound (db : Db) (singleDomain : Bool) (found : Option (Option LockRow)) (t : Transfer) :
    Int × Transfer :=
  match found with
  | none => (-1, (t.set db .rollback).2)
  | some none =>
    if singleDomain then (1, (t.set db .commit).2)
    else
      let (ok, t) := t.set db (.insert t.r.key)
      if ok then (1, (t.set db .commit).2) else (-1, (t.set db .rollback).2)
  | some (some row) =>
    let t := if singleDomain then { t with r := { t.r with file := row.file } } else t
    if ¬ row.file_used then lockRow db t
    else
      match row.difftime with
      | none => (-1, (t.set db .rollback).2)
      | some true => (0, (t.set db .commit).2)
      | some false => lockRow db t

/-- `lockFile`; `none` where a netflix name has no part at all. -/
def lockFile (db : Db) (singleDomain : Bool) (found : Option (Option LockRow)) (t : Transfer) :
    Option (Int × Transfer) :=
  let lname := splitstring t.r.file DELIM
  if singleDomain ∧ lname.length = 1 then some (0, t)
  else if singleDomain ∧ lname.isEmpty then none
  else
    let (ok, t) := t.set db .startTransaction
    if ok then some (lockFound db singleDomain found { t with operation := some .select })
    else some (-1, t)

end Haarp
