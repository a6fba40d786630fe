import Haarp.Utils.Strings

/-!
# The table `haarp`

The rows of the database and the statements the proxy sends. A row is found by its domain and file;
times are whole seconds. A statement either succeeds or fails (`Database::set` returns 0 or -1); the
log of a connection keeps each statement with its outcome. `Stmt.apply` is what a statement that
succeeds does to the table.
-/

namespace Haarp

/-- The unique key `file_domain` of the table. -/
structure Key where
  domain : Str
  file : Str
  deriving DecidableEq, Repr

/-- The columns of a row that the cache decides by. -/
structure Row where
  size : Int
  modified : Int
  lastRequest : Int
  /-- `rg` and `pos` are NULL in a row that was only inserted. -/
  rg : Option Str
  pos : Option Str
  filesize : Int
  np : Int
  fileUsed : Bool
  deriving DecidableEq, Repr

abbrev Table := Key → Option Row

/-- The statements of `Database::set`. -/
inductive Stmt
  | startTransaction
  | commit
  | rollback
  /-- The `INSERT` of `lockFile`, with `file_used=1`. -/
  | insert (key : Key)
  /-- The `INSERT` of a netflix file that was not cached, with `file_used=0`. -/
  | insertFree (key : Key)
  /-- `UPDATE haarp set file=.., modified=now(), file_used=0` of such a file. -/
  | identify (key : Key) (file : Str)
  /-- `UPDATE haarp set modified=now(), file_used=1` -/
  | lock (key : Key)
  /-- `UPDATE haarp set file_used=0` -/
  | liberate (key : Key)
  /-- `UPDATE haarp set modified=now(), rg=.., pos=.., filesize=.., np=np+..` -/
  | record (key : Key) (rg pos : Str) (filesize np : Int)
  /-- `UPDATE haarp SET size=..` -/
  | setSize (key : Key) (size : Int)
  /-- `UPDATE haarp SET last_request=now()` -/
  | lastRequest (key : Key)
  /-- `UPDATE haarp SET last_request=now(), bytes_requested=bytes_requested+..` -/
  | requested (key : Key) (bytes : Int)
  /-- `UPDATE haarp SET modified=now(), last_request=now(), rg='', pos='', np=0, .., size=..` -/
  | reset (key : Key) (size : Int)
  /-- `UPDATE haarp set rg='', pos=''` -/
  | resetRanges (key : Key)
  deriving DecidableEq, Repr

/-- The value of `Database::operation` after a statement, for those that set it. -/
inductive Operation
  | insert
  | update
  | select
  deriving DecidableEq, Repr

def Stmt.operation : Stmt → Option Operation
  | .startTransaction | .commit | .rollback => none
  | .insert _ | .insertFree _ => some .insert
  | _ => some .update

/-- The statements of a connection so far, each with whether it succeeded. -/
abbrev Log := List (Stmt × Bool)

/-- How the database answers: whether a statement succeeds, given those before it. -/
abbrev Db := Log → Stmt → Bool

/-- The database that answers every statement. -/
def succeeds : Db := fun _ _ => true

/-- Changes one row, if it exists. -/
def Table.modify (tb : Table) (key : Key) (f : Row → Row) : Table :=
  fun k => if k = key then (tb k).map f else tb k

/-- Adds a row; the key is unique. -/
def Table.insert (tb : Table) (key : Key) (row : Row) : Table :=
  fun k => if k = key ∧ (tb k).isNone then some row else tb k

/-- Gives a row another name, unless it is taken. -/
def Table.rename (tb : Table) (key : Key) (file : Str) (f : Row → Row) : Table :=
  let key' : Key := { key with file }
  if key' = key then tb.modify key f
  else if (tb key').isSome then tb
  else fun k => if k = key' then (tb key).map f else if k = key then none else tb k

/-- A row as the `INSERT` of `lockFile` leaves it. -/
def Row.inserted (now : Int) : Row :=
  { size := 0, modified := now, lastRequest := now, rg := none, pos := none, filesize := 0, np := 0,
    fileUsed := true }

/-- What a statement does that succeeds at time `now`. -/
def Stmt.apply (now : Int) (tb : Table) : Stmt → Table
  | .startTransaction | .commit | .rollback => tb
  | .insert key => tb.insert key (Row.inserted now)
  | .insertFree key => tb.insert key { Row.inserted now with fileUsed := false }
  | .identify key file =>
    tb.rename key file fun row => { row with modified := now, fileUsed := false }
  | .lock key => tb.modify key fun row => { row with modified := now, fileUsed := true }
  | .liberate key => tb.modify key fun row => { row with fileUsed := false }
  | .record key rg pos filesize np =>
    tb.modify key fun row =>
      { row with modified := now, rg := some rg, pos := some pos, filesize, np := row.np + np }
  | .setSize key size => tb.modify key fun row => { row with size }
  | .lastRequest key | .requested key _ => tb.modify key fun row => { row with lastRequest := now }
  | .reset key size =>
    tb.modify key fun row =>
      { row with modified := now, lastRequest := now, rg := some [], pos := some [], np := 0, size }
  | .resetRanges key => tb.modify key fun row => { row with rg := some [], pos := some [] }

/-- What the statements of a log do that succeeded. -/
def Table.run (now : Int) (tb : Table) (log : Log) : Table :=
  log.foldl (fun tb s => if s.2 then s.1.apply now tb else tb) tb

/-- The texts `rg` and `pos` of a row; NULL counts as empty. -/
def Table.columns (tb : Table) (key : Key) : Str × Str :=
  match tb key with
  | some row => (row.rg.getD [], row.pos.getD [])
  | none => ([], [])

/-- The list a row records, as a session loads it. -/
def Table.ranges (tb : Table) (key : Key) : LintervalPositionByteDisk :=
  match generateList (tb.columns key).1 (tb.columns key).2 with
  | (true, l) => l
  | (false, _) => []

/-! ## What a session tells the database -/

/-- The statements on the row `key` that record the list `l`, release the row or mark its use. -/
inductive Tells (key : Key) (l : LintervalPositionByteDisk) : Stmt → Prop
  | record (filesize np : Int) :
      Tells key l (.record key (list2string l).1 (list2string l).2 filesize np)
  | liberate : Tells key l (.liberate key)
  | requested (bytes : Int) : Tells key l (.requested key bytes)
  | lastRequest : Tells key l (.lastRequest key)

@[simp] theorem Table.modify_self (tb : Table) (key : Key) (f : Row → Row) :
    tb.modify key f key = (tb key).map f := by
  unfold Table.modify
  rw [if_pos rfl]

theorem Table.modify_columns (tb : Table) (key : Key) (f : Row → Row)
    (hf : ∀ row, (f row).rg = row.rg ∧ (f row).pos = row.pos) :
    (tb.modify key f).columns key = tb.columns key := by
  simp only [Table.columns, Table.modify_self]
  cases tb key with
  | none => rfl
  | some row => simp only [Option.map_some, (hf row).1, (hf row).2]

theorem Tells.apply_columns {key : Key} {l : LintervalPositionByteDisk} {s : Stmt}
    (h : Tells key l s) (now : Int) (tb : Table) :
    (s.apply now tb).columns key = tb.columns key ∨
      (s.apply now tb).columns key = list2string l := by
  cases h with
  | record filesize np =>
    simp only [Stmt.apply, Table.columns, Table.modify_self]
    cases tb key with
    | none => exact .inl rfl
    | some row => exact .inr rfl
  | liberate => exact .inl (Table.modify_columns tb key _ fun row => ⟨rfl, rfl⟩)
  | requested bytes => exact .inl (Table.modify_columns tb key _ fun row => ⟨rfl, rfl⟩)
  | lastRequest => exact .inl (Table.modify_columns tb key _ fun row => ⟨rfl, rfl⟩)

/-- After such statements the row records what it did before, or the list `l`. -/
theorem run_columns {key : Key} {l : LintervalPositionByteDisk} {log : Log}
    (h : ∀ s ∈ log, Tells key l s.1) (now : Int) (tb : Table) :
    (tb.run now log).columns key = tb.columns key ∨
      (tb.run now log).columns key = list2string l := by
  induction log generalizing tb with
  | nil => exact .inl rfl
  | cons s log ih =>
    have hlog : ∀ s ∈ log, Tells key l s.1 := fun s' hs' => h s' (List.mem_cons_of_mem s hs')
    change ((if s.2 then s.1.apply now tb else tb).run now log).columns key = _ ∨
      ((if s.2 then s.1.apply now tb else tb).run now log).columns key = _
    cases hok : s.2 with
    | false => exact ih hlog tb
    | true =>
      rcases ih hlog (s.1.apply now tb) with hcols | hcols
      · rcases (h s List.mem_cons_self).apply_columns now tb with happ | happ
        · exact .inl (hcols.trans happ)
        · exact .inr (hcols.trans happ)
      · exact .inr hcols

/-! ## Rows stay -/

theorem Table.run_append (now : Int) (tb : Table) (log log' : Log) :
    tb.run now (log ++ log') = (tb.run now log).run now log' :=
  List.foldl_append

theorem Table.isSome_modify {tb : Table} {key k : Key} (f : Row → Row) (h : (tb k).isSome) :
    (tb.modify key f k).isSome := by
  unfold Table.modify
  split
  · rwa [Option.isSome_map]
  · exact h

theorem Tells.isSome_apply {key : Key} {l : LintervalPositionByteDisk} {s : Stmt} (h : Tells key l s)
    (now : Int) {tb : Table} {k : Key} (hrow : (tb k).isSome) : (s.apply now tb k).isSome := by
  cases h <;> exact Table.isSome_modify _ hrow

/-- No statement of a session removes a row. -/
theorem Table.isSome_run (now : Int) {tb : Table} {k : Key} {log : Log}
    (hlog : ∀ s ∈ log, ∃ key l, Tells key l s.1) (h : (tb k).isSome) :
    (tb.run now log k).isSome := by
  induction log generalizing tb with
  | nil => exact h
  | cons s log ih =>
    apply ih fun s' hs' => hlog s' (List.mem_cons_of_mem s hs')
    dsimp only
    split
    · obtain ⟨key, l, hs⟩ := hlog s List.mem_cons_self
      exact hs.isSome_apply now h
    · exact h

theorem run_liberate_columns (now : Int) (tb : Table) {key : Key} {log : Log}
    (h : ∀ s ∈ log, s.1 = .liberate key) : (tb.run now log).columns key = tb.columns key := by
  induction log generalizing tb with
  | nil => rfl
  | cons s log ih =>
    refine (ih _ fun s' hs' => h s' (List.mem_cons_of_mem s hs')).trans ?_
    dsimp only
    split
    · rw [h s List.mem_cons_self]
      exact Table.modify_columns tb key _ fun row => ⟨rfl, rfl⟩
    · rfl

/-- What is recorded last is what the row holds, whatever releases follow. -/
theorem run_record_columns (now : Int) {tb : Table} {key : Key} (hrow : (tb key).isSome) {log : Log}
    (hlog : ∀ s ∈ log, ∃ key l, Tells key l s.1) (rg pos : Str) (filesize np : Int) {new : Log}
    (hnew : ∀ s ∈ new, s.1 = .liberate key) :
    (tb.run now (log ++ (.record key rg pos filesize np, true) :: new)).columns key = (rg, pos) := by
  rw [Table.run_append]
  obtain ⟨row, hkey⟩ := Option.isSome_iff_exists.mp (Table.isSome_run now hlog hrow)
  refine (run_liberate_columns now _ hnew).trans ?_
  simp only [if_true, Stmt.apply, Table.columns, Table.modify_self, hkey, Option.map_some,
    Option.getD_some]

end Haarp
