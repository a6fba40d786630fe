import Haarp.Base.Transaction
import Haarp.Cache.World

/-!
# The transaction of lockFile

What `lockFile` leaves in the database when any of its statements may fail. Its statements are one
transaction (`lockFile_exit`), so nothing is changed unless it returns 1; but it does not look at the
answer to `COMMIT`, and returns 1 also when the row is not taken (`lockFile_allOrNothing_iff`).
-/

namespace Haarp

open Base

/-- A statement as a command of a transaction. -/
def Stmt.command : Stmt → Command Stmt
  | .startTransaction => .start
  | .commit => .commit
  | .rollback => .rollback
  | s => .change s

/-- The server after the statements of `log`, with no transaction open before. -/
def serverAfter (now : Int) (tb : Table) (log : Log) : Transactional Table :=
  Transactional.run (fun s tb => s.apply now tb) ⟨tb, none⟩ (log.map fun s => (s.1.command, s.2))

/-- The row that the request is for: the one of its name, or for a netflix file one whose name
matches the pattern of the `LIKE`. -/
def AsksRow (singleDomain : Bool) (like : Str → Bool) (file name : Str) : Prop :=
  if singleDomain then like name = true else name = file

/-- What `SELECT .. FOR UPDATE` may answer: an error, no row, or one of the rows asked for, whatever
its `difftime` is. -/
inductive Answers (tb : Table) (singleDomain : Bool) (like : Str → Bool) (domain file : Str) :
    Option (Option LockRow) → Prop
  | error : Answers tb singleDomain like domain file none
  | noRows (missing : ∀ name, AsksRow singleDomain like file name → tb ⟨domain, name⟩ = none) :
      Answers tb singleDomain like domain file (some none)
  | row {name : Str} {row : Row} (difftime : Option Bool) (asked : AsksRow singleDomain like file name)
      (stored : tb ⟨domain, name⟩ = some row) :
      Answers tb singleDomain like domain file (some (some ⟨name, difftime, row.fileUsed⟩))

/-- The statement that takes a row, for what was found. -/
def takingFound (singleDomain : Bool) (r : Resposta) : Option (Option LockRow) → Option Stmt
  | none => none
  | some none => if singleDomain then none else some (.insert r.key)
  | some (some row) =>
    if row.file_used = false ∨ row.difftime = some false then
      some (.lock { domain := r.domain, file := if singleDomain then row.file else r.file })
    else none

/-- The statement by which `lockFile` takes a row, where it comes to it. -/
def takingStmt (singleDomain : Bool) (found : Option (Option LockRow)) (r : Resposta) : Option Stmt :=
  if singleDomain ∧ (splitstring r.file DELIM).length = 1 then none
  else takingFound singleDomain r found

/-- The row is taken, and then `COMMIT` fails. -/
def CommitLost (db : Db) (log : Log) (taking : Option Stmt) : Prop :=
  ∃ s, taking = some s ∧ db log .startTransaction = true ∧
    db (log ++ [(.startTransaction, true)]) s = true ∧
    db (log ++ [(.startTransaction, true), (s, true)]) .commit = false

/-! ## The exits of lockFile -/

/-- How `lockFile` ends: what it returns, the row of its file then, and what it has told the database. -/
inductive LockExit (db : Db) (log : Log) (singleDomain : Bool) (found : Option (Option LockRow))
    (taking : Option Stmt) (key : Key) : Int → Log → Prop
  | unnamed (untaken : taking = none) : LockExit db log singleDomain found taking key 0 []
  | notStarted (start : db log .startTransaction = false) :
      LockExit db log singleDomain found taking key (-1) [(.startTransaction, false)]
  | untaken {re : Int} {s : Stmt} {ok : Bool} (untaken : taking = none)
      (missing : re = 1 → singleDomain = true ∧ found = some none) (final : s = .commit ∨ s = .rollback) :
      LockExit db log singleDomain found taking key re [(.startTransaction, true), (s, ok)]
  | refused {s : Stmt} {ok : Bool} (takes : taking = some s)
      (fails : db (log ++ [(.startTransaction, true)]) s = false)
      (change : s = .insert key ∨ s = .lock key) :
      LockExit db log singleDomain found taking key (-1)
        [(.startTransaction, true), (s, false), (.rollback, ok)]
  | taken {s : Stmt} {ok : Bool} (takes : taking = some s)
      (start : db log .startTransaction = true)
      (succeeds : db (log ++ [(.startTransaction, true)]) s = true)
      (final : db (log ++ [(.startTransaction, true), (s, true)]) .commit = ok)
      (row : (singleDomain = false ∧ found = some none ∧ s = .insert key) ∨
        ((∃ row, found = some (some row)) ∧ s = .lock key)) :
      LockExit db log singleDomain found taking key 1
        [(.startTransaction, true), (s, true), (.commit, ok)]

section Exits

variable {db : Db} {singleDomain : Bool} {found : Option (Option LockRow)} {taking : Option Stmt}
  {log : Log} {t t' : Transfer} {re : Int}

/-- The statement that takes the row, and the end that follows it. -/
theorem take_exit {s : Stmt} (hlog : t.log = log ++ [(.startTransaction, true)])
    (hstart : db log .startTransaction = true) (htakes : taking = some s)
    (hrow : (singleDomain = false ∧ found = some none ∧ s = .insert t.r.key) ∨
      ((∃ row, found = some (some row)) ∧ s = .lock t.r.key))
    (h : (if (t.set db s).1 then (1, ((t.set db s).2.set db .commit).2)
      else (-1, ((t.set db s).2.set db .rollback).2)) = (re, t')) :
    ∃ new, t'.log = log ++ new ∧ LockExit db log singleDomain found taking t'.r.key re new := by
  have hset : (t.set db s).1 = db (log ++ [(.startTransaction, true)]) s := by
    rw [← hlog]
    rfl
  split at h
  · next hok =>
    rw [hset] at hok
    cases h
    have hlog' : (t.set db s).2.log = log ++ [(.startTransaction, true), (s, true)] := by
      rw [Transfer.set, hlog, hok, List.append_assoc]
      rfl
    refine ⟨[(.startTransaction, true), (s, true), (.commit, _)], ?_, .taken htakes hstart hok rfl hrow⟩
    rw [Transfer.set, hlog', List.append_assoc]
    rfl
  · next hfails =>
    rw [hset, Bool.not_eq_true] at hfails
    cases h
    have hlog' : (t.set db s).2.log = log ++ [(.startTransaction, true), (s, false)] := by
      rw [Transfer.set, hlog, hfails, List.append_assoc]
      rfl
    have hchange : s = .insert t.r.key ∨ s = .lock t.r.key := hrow.imp (·.2.2) (·.2)
    refine ⟨[(.startTransaction, true), (s, false), (.rollback, db (t.set db s).2.log .rollback)], ?_,
      .refused htakes hfails hchange⟩
    rw [Transfer.set, hlog', List.append_assoc]
    rfl

/-- The end of a transaction that takes no row. -/
theorem end_exit {s : Stmt} (hlog : t.log = log ++ [(.startTransaction, true)]) (huntaken : taking = none)
    (hmissing : re = 1 → singleDomain = true ∧ found = some none) (hs : s = .commit ∨ s = .rollback) :
    ∃ new, (t.set db s).2.log = log ++ new ∧
      LockExit db log singleDomain found taking (t.set db s).2.r.key re new := by
  refine ⟨[(.startTransaction, true), (s, db t.log s)], ?_, .untaken huntaken hmissing hs⟩
  rw [Transfer.set, hlog, List.append_assoc]
  rfl

/-- A row that is found is locked when it is free or stale; else the transaction ends. -/
theorem lockFound_row_exit {row : LockRow} (hlog : t.log = log ++ [(.startTransaction, true)])
    (hstart : db log .startTransaction = true)
    (h : lockFound db singleDomain (some (some row)) t = (re, t')) :
    ∃ new, t'.log = log ++ new ∧
      LockExit db log singleDomain (some (some row))
        (takingFound singleDomain t.r (some (some row))) t'.r.key re new := by
  unfold lockFound at h
  dsimp only at h
  -- a netflix request takes the name of the row
  have hnamed : ∃ t₁ : Transfer,
      (if singleDomain then { t with r := { t.r with file := row.file } } else t) = t₁ ∧
      t₁.log = t.log ∧
      t₁.r.key = { domain := t.r.domain, file := if singleDomain then row.file else t.r.file } := by
    refine ⟨_, rfl, ?_, ?_⟩
    · split <;> rfl
    · cases singleDomain <;> rfl
  obtain ⟨t₁, ht₁, hlog₁, hkey⟩ := hnamed
  rw [ht₁] at h
  rw [← hlog₁] at hlog
  have hlock : row.file_used = false ∨ row.difftime = some false →
      takingFound singleDomain t.r (some (some row)) = some (.lock t₁.r.key) := by
    intro hfree
    rw [takingFound, if_pos hfree, hkey]
  have htake : row.file_used = false ∨ row.difftime = some false → lockRow db t₁ = (re, t') →
      ∃ new, t'.log = log ++ new ∧ LockExit db log singleDomain (some (some row))
        (takingFound singleDomain t.r (some (some row))) t'.r.key re new :=
    fun hfree h => take_exit hlog hstart (hlock hfree) (.inr ⟨⟨row, rfl⟩, rfl⟩) h
  split at h
  · next hused => exact htake (.inl (Bool.not_eq_true _ ▸ hused)) h
  · next hused =>
    have huntaken : row.difftime ≠ some false →
        takingFound singleDomain t.r (some (some row)) = none := by
      intro hdiff
      rw [takingFound, if_neg]
      rintro (hfree | hstale)
      · exact hused (by rw [hfree]; decide)
      · exact hdiff hstale
    split at h
    · next hdiff =>
      cases h
      exact end_exit hlog (huntaken (by rw [hdiff]; decide)) (fun h => absurd h (by decide)) (.inr rfl)
    · next hdiff =>
      cases h
      exact end_exit hlog (huntaken (by rw [hdiff]; decide)) (fun h => absurd h (by decide)) (.inl rfl)
    · next hdiff => exact htake (.inr hdiff) h

theorem lockFound_exit (hlog : t.log = log ++ [(.startTransaction, true)])
    (hstart : db log .startTransaction = true)
    (h : lockFound db singleDomain found t = (re, t')) :
    ∃ new, t'.log = log ++ new ∧
      LockExit db log singleDomain found (takingFound singleDomain t.r found) t'.r.key re new := by
  cases found with
  | none =>
    cases h
    exact end_exit hlog rfl (fun h => absurd h (by decide)) (.inr rfl)
  | some answer =>
    cases answer with
    | none =>
      cases singleDomain with
      | true =>
        cases h
        exact end_exit hlog rfl (fun _ => ⟨rfl, rfl⟩) (.inl rfl)
      | false => exact take_exit hlog hstart rfl (.inl ⟨rfl, rfl, rfl⟩) h
    | some row => exact lockFound_row_exit hlog hstart h

/-- `lockFile` returns in one of these ways. -/
theorem lockFile_exit (h : lockFile db singleDomain found t = some (re, t')) :
    ∃ new, t'.log = t.log ++ new ∧
      LockExit db t.log singleDomain found (takingStmt singleDomain found t.r) t'.r.key re new := by
  unfold lockFile at h
  dsimp only at h
  split at h
  · next hone =>
    cases h
    exact ⟨[], (List.append_nil _).symm, .unnamed (if_pos hone)⟩
  · next hone =>
    rw [takingStmt, if_neg hone]
    split at h
    · cases h
    · split at h
      · next hstart =>
        have hlog : ({ (t.set db .startTransaction).2 with operation := some .select } : Transfer).log =
            t.log ++ [(.startTransaction, true)] :=
          congrArg (fun ok => t.log ++ [(Stmt.startTransaction, ok)]) hstart
        have hfound := lockFound_exit hlog hstart (Option.some.inj h)
        exact hfound
      · next hstart =>
        cases h
        rw [Bool.not_eq_true] at hstart
        refine ⟨[(.startTransaction, false)], ?_, .notStarted hstart⟩
        exact congrArg (fun ok => t.log ++ [(Stmt.startTransaction, ok)]) hstart

end Exits

/-! ## All or nothing -/

/-- The row `key` is taken by the statements of `log`, and that is committed. -/
def TakenBy (now : Int) (tb : Table) (log : Log) (key : Key) : Prop :=
  (∃ row, (serverAfter now tb log).committed key = some row ∧ row.fileUsed = true) ∧
    ∃ s, (s = .insert key ∨ s = .lock key) ∧ [(s, true), (.commit, true)].Sublist log

/-- What `lockFile` owes its caller: `re` is what it returns, `key` the row of its file then, and `log`
what it has told the database. -/
structure AllOrNothing (now : Int) (tb : Table) (singleDomain : Bool) (like : Str → Bool) (domain : Str)
    (re : Int) (key : Key) (log : Log) : Prop where
  taken : re = 1 → TakenBy now tb log key ∨
    (singleDomain = true ∧ ∀ name, like name = true → tb ⟨domain, name⟩ = none)
  unchanged : re = 0 ∨ re = -1 → (serverAfter now tb log).committed = tb
  closed : (.commit, true) ∈ log ∨ (.rollback, true) ∈ log → (serverAfter now tb log).opened = none

section Server

variable {changes : Log} (now : Int) (tb : Table)

theorem map_command (hchanges : ∀ s ∈ changes, s.1.command = .change s.1) :
    changes.map (fun s => (s.1.command, s.2)) = changes.map fun s => (.change s.1, s.2) :=
  List.map_congr_left fun s hs => by rw [hchanges s hs]

/-- A transaction that is committed. -/
theorem serverAfter_commit (hchanges : ∀ s ∈ changes, s.1.command = .change s.1) :
    serverAfter now tb ((.startTransaction, true) :: changes ++ [(.commit, true)]) =
      ⟨tb.run now changes, none⟩ := by
  rw [serverAfter, List.map_append, List.map_cons, map_command hchanges]
  exact Transactional.run_commit _ tb changes

/-- A transaction that is rolled back. -/
theorem serverAfter_rollback (hchanges : ∀ s ∈ changes, s.1.command = .change s.1) :
    serverAfter now tb ((.startTransaction, true) :: changes ++ [(.rollback, true)]) = ⟨tb, none⟩ := by
  rw [serverAfter, List.map_append, List.map_cons, map_command hchanges]
  exact Transactional.run_rollback _ tb changes

/-- A transaction whose end fails. -/
theorem serverAfter_end_fails (hchanges : ∀ s ∈ changes, s.1.command = .change s.1) (s : Stmt) :
    (serverAfter now tb ((.startTransaction, true) :: changes ++ [(s, false)])).committed = tb := by
  rw [serverAfter, List.map_append, List.map_cons, map_command hchanges]
  exact congrArg Transactional.committed (Transactional.run_end_fails _ tb changes s.command)

end Server

section Outcome

variable {now : Int} {tb : Table} {db : Db} {singleDomain : Bool} {like : Str → Bool}
  {found : Option (Option LockRow)} {t t' : Transfer} {re : Int}

/-- Where the row is not taken, `lockFile` changes nothing. -/
theorem AllOrNothing.of_unchanged {domain : Str} {key : Key} {changes : Log} {s : Stmt} {ok : Bool}
    (hchanges : ∀ s ∈ changes, s.1.command = .change s.1) (hrun : tb.run now changes = tb)
    (hs : s = .commit ∨ s = .rollback)
    (hre : re = 1 → singleDomain = true ∧ ∀ name, like name = true → tb ⟨domain, name⟩ = none) :
    AllOrNothing now tb singleDomain like domain re key
      ((.startTransaction, true) :: changes ++ [(s, ok)]) := by
  have hmem : ∀ s' : Stmt, s' = .commit ∨ s' = .rollback →
      (s', true) ∈ (Stmt.startTransaction, true) :: changes ++ [(s, ok)] → ok = true := by
    intro s' hs' hmem
    rcases List.mem_append.mp hmem with hmem | hmem
    · rcases List.mem_cons.mp hmem with heq | hmem
      · rcases hs' with rfl | rfl <;> cases heq
      · have hcommand := hchanges _ hmem
        rcases hs' with rfl | rfl <;> cases hcommand
    · exact (Prod.mk.inj (List.mem_singleton.mp hmem)).2.symm
  refine ⟨fun h => .inr (hre h), fun _ => ?_, fun h => ?_⟩
  · cases ok with
    | false => exact serverAfter_end_fails now tb hchanges s
    | true =>
      rcases hs with rfl | rfl
      · rw [serverAfter_commit now tb hchanges, hrun]
      · rw [serverAfter_rollback now tb hchanges]
  · obtain rfl : ok = true := h.elim (hmem _ (.inl rfl)) (hmem _ (.inr rfl))
    rcases hs with rfl | rfl
    · rw [serverAfter_commit now tb hchanges]
    · rw [serverAfter_rollback now tb hchanges]

/-- The row that is taken is in the table, or is not when it is inserted. -/
theorem Answers.row_of_taking (h : Answers tb singleDomain like t.r.domain t.r.file found) {s : Stmt}
    {key : Key} (htaking : takingStmt singleDomain found t.r = some s)
    (hs : s = .insert key ∨ s = .lock key) :
    (tb key = none ∧ s = .insert key) ∨ ((tb key).isSome ∧ s = .lock key) := by
  unfold takingStmt at htaking
  split at htaking
  · cases htaking
  · cases h with
    | error => cases htaking
    | noRows hmissing =>
      cases singleDomain with
      | true => cases htaking
      | false =>
        cases htaking
        obtain rfl : t.r.key = key := by
          rcases hs with heq | heq
          · exact Stmt.insert.inj heq
          · cases heq
        exact .inl ⟨hmissing t.r.file rfl, rfl⟩
    | @row name row difftime hasked hstored =>
      rw [takingFound] at htaking
      split at htaking
      · cases htaking
        obtain rfl : { domain := t.r.domain, file := if singleDomain then name else t.r.file } = key := by
          rcases hs with heq | heq
          · cases heq
          · exact Stmt.lock.inj heq
        have hname : (if singleDomain then name else t.r.file) = name := by
          cases singleDomain with
          | true => rfl
          | false => exact hasked.symm
        rw [hname, hstored]
        exact .inr ⟨rfl, rfl⟩
      · cases htaking

theorem change_of_taking {s : Stmt} {ok : Bool} {key : Key} (hs : s = .insert key ∨ s = .lock key) :
    ∀ c ∈ [(s, ok)], c.1.command = .change c.1 := by
  intro c hc
  rw [List.mem_singleton.mp hc]
  rcases hs with rfl | rfl <;> rfl

/-- Where the taking is committed, the row is taken. -/
theorem AllOrNothing.of_committed (hfound : Answers tb singleDomain like t.r.domain t.r.file found)
    {s : Stmt} {key : Key} (htakes : takingStmt singleDomain found t.r = some s)
    (hs : s = .insert key ∨ s = .lock key) :
    AllOrNothing now tb singleDomain like t.r.domain 1 key
      [(.startTransaction, true), (s, true), (.commit, true)] := by
  have hafter : serverAfter now tb [(.startTransaction, true), (s, true), (.commit, true)] =
      ⟨s.apply now tb, none⟩ := serverAfter_commit now tb (change_of_taking hs)
  refine ⟨fun _ => .inl ⟨?_, s, hs, ?_⟩, fun h => ?_, fun _ => ?_⟩
  · rw [hafter]
    exact (take_row now (hfound.row_of_taking htakes hs)).1
  · exact List.sublist_cons_self _ _
  · rcases h with h | h <;> cases h
  · rw [hafter]

/-- Where its commit fails, `lockFile` says that the row is taken, and it is not. -/
theorem not_allOrNothing_of_lost (hfound : Answers tb singleDomain like t.r.domain t.r.file found)
    {s : Stmt} {key : Key}
    (hrow : singleDomain = false ∧ found = some none ∧ s = .insert key ∨
      (∃ row, found = some (some row)) ∧ s = .lock key) :
    ¬ AllOrNothing now tb singleDomain like t.r.domain 1 key
      [(.startTransaction, true), (s, true), (.commit, false)] := by
  have hs : s = .insert key ∨ s = .lock key := hrow.imp (·.2.2) (·.2)
  intro hall
  rcases hall.taken rfl with ⟨-, s', -, hsub⟩ | ⟨hsingle, hnone⟩
  · have hmem : (Stmt.commit, true) ∈ [(.startTransaction, true), (s, true), (.commit, false)] :=
      hsub.subset (by simp)
    rcases hs with rfl | rfl <;> simp at hmem
  · -- a netflix file is only taken when a row has its name
    rcases hrow with ⟨hsingle', -⟩ | ⟨⟨row, rfl⟩, -⟩
    · cases hsingle.symm.trans hsingle'
    · cases hfound with
      | row difftime hasked hstored =>
        rw [AsksRow, if_pos hsingle] at hasked
        cases (hnone _ hasked).symm.trans hstored

/-- **lockFile is all or nothing** exactly when the `COMMIT` behind a row that it takes does not fail. -/
theorem lockFile_allOrNothing_iff (hfound : Answers tb singleDomain like t.r.domain t.r.file found)
    (h : lockFile db singleDomain found t = some (re, t')) :
    AllOrNothing now tb singleDomain like t.r.domain re t'.r.key (t'.log.drop t.log.length) ↔
      ¬ CommitLost db t.log (takingStmt singleDomain found t.r) := by
  obtain ⟨new, hlog, hexit⟩ := lockFile_exit h
  rw [hlog, List.drop_left]
  cases hexit with
  | unnamed huntaken =>
    refine ⟨fun _ hlost => ?_, fun _ => ⟨fun h => absurd h (by decide), fun _ => rfl, fun _ => rfl⟩⟩
    obtain ⟨s, hs, -⟩ := hlost
    cases huntaken.symm.trans hs
  | notStarted hstart =>
    refine ⟨fun _ hlost => ?_, fun _ => ⟨fun h => absurd h (by decide), fun _ => rfl, fun _ => rfl⟩⟩
    obtain ⟨s, -, hstart', -⟩ := hlost
    cases hstart.symm.trans hstart'
  | @untaken _ s ok huntaken hmissing hs =>
    have hnot : ¬ CommitLost db t.log (takingStmt singleDomain found t.r) := by
      rintro ⟨s, hs, -⟩
      cases huntaken.symm.trans hs
    have hnone : re = 1 →
        singleDomain = true ∧ ∀ name, like name = true → tb ⟨t.r.domain, name⟩ = none := by
      intro hre
      obtain ⟨rfl, rfl⟩ := hmissing hre
      cases hfound with
      | noRows hrows => exact ⟨rfl, fun name hname => hrows name hname⟩
    have hnochange : ∀ s ∈ ([] : Log), s.1.command = .change s.1 := fun s hs => absurd hs List.not_mem_nil
    exact iff_of_true (.of_unchanged hnochange rfl hs hnone) hnot
  | @refused s ok htakes hfails hchange =>
    have hnot : ¬ CommitLost db t.log (takingStmt singleDomain found t.r) := by
      rintro ⟨s', hs', -, hok, -⟩
      cases htakes.symm.trans hs'
      cases hfails.symm.trans hok
    have hre : (-1 : Int) ≠ 1 := by decide
    exact iff_of_true (.of_unchanged (change_of_taking hchange) rfl (.inr rfl) fun h => absurd h hre) hnot
  | @taken s ok htakes hstart hok hfinal hrow =>
    cases ok with
    | true =>
      have hnot : ¬ CommitLost db t.log (takingStmt singleDomain found t.r) := by
        rintro ⟨s', hs', -, -, hlost⟩
        cases htakes.symm.trans hs'
        cases hfinal.symm.trans hlost
      exact iff_of_true (.of_committed hfound htakes (hrow.imp (·.2.2) (·.2))) hnot
    | false =>
      exact iff_of_false (not_allOrNothing_of_lost hfound hrow)
        (not_not_intro ⟨s, htakes, hstart, hok, hfinal⟩)

/-- A new row, with a database that answers. -/
theorem lockFile_allOrNothing_new :
    ∃ t', lockFile succeeds false (some none) (.blank ⟨true, ['d'], ['f'], 0, 0, 0, false⟩) = some (1, t') ∧
      AllOrNothing 5 (fun _ => none) false (fun _ => false) ['d'] 1 t'.r.key t'.log := by
  have hlost : ¬ CommitLost succeeds []
      (takingStmt false (some none) ⟨true, ['d'], ['f'], 0, 0, 0, false⟩) := by
    rintro ⟨s, -, -, -, h⟩
    cases h
  obtain ⟨t', ht'⟩ : ∃ t', lockFile succeeds false (some none)
      (.blank ⟨true, ['d'], ['f'], 0, 0, 0, false⟩) = some (1, t') := ⟨_, rfl⟩
  have hfound : Answers (fun _ => none) false (fun _ => false) ['d'] ['f'] (some none) :=
    .noRows fun _ _ => rfl
  exact ⟨t', ht', (lockFile_allOrNothing_iff hfound ht').mpr hlost⟩

/-- A new row, with a database that answers everything but `COMMIT`. -/
theorem not_lockFile_allOrNothing_commit :
    Answers (fun _ => none) false (fun _ => false) ['d'] ['f'] (some none) ∧
    ∃ t', lockFile (fun _ s => decide (s ≠ .commit)) false (some none)
        (.blank ⟨true, ['d'], ['f'], 0, 0, 0, false⟩) = some (1, t') ∧
      ¬ AllOrNothing 5 (fun _ => none) false (fun _ => false) ['d'] 1 t'.r.key t'.log := by
  refine ⟨.noRows fun _ _ => rfl, _, rfl, fun h => ?_⟩
  rcases h.taken rfl with ⟨⟨row, hrow, -⟩, -⟩ | ⟨hsingle, -⟩
  · cases hrow
  · cases hsingle

end Outcome

end Haarp
