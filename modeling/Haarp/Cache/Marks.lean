import Haarp.Cache.Decide
import Haarp.Cache.Header
import Haarp.Cache.Frame
import Mathlib.Data.List.Induction

/-!
# The rows a connection has marked

`marks` is what the statements of a connection have set to `file_used=1` and not released, whatever
other connections do to the rows (`Table.run_used`). `Cache` has returns behind `lockFile` that do not
release the row (`Connection.Forgets`).

The invariant of a request is `Locked`: the mark can still be released (`Releasable`), and a connection
that no longer uses the entry has released it, unless `Cache` has forgotten it. `cache_locked` is what
`Cache` establishes; `readHeader_locked` and those beside it say that what follows keeps it, and
`update_locked` that `Update` releases the row.
-/

namespace Haarp

/-! ## The rows a connection has marked -/

/-- The marked rows after a statement that succeeds. -/
def Stmt.marks (marked : List Key) : Stmt → List Key
  | .insert key | .lock key => key :: marked.filter (· ≠ key)
  | .liberate key => marked.filter (· ≠ key)
  | _ => marked

/-- The rows that the statements of a log have marked with `file_used=1` and not released. -/
def marks (log : Log) : List Key :=
  log.foldl (fun marked s => if s.2 then s.1.marks marked else marked) []

theorem marks_append (log : Log) (s : Stmt) (ok : Bool) :
    marks (log ++ [(s, ok)]) = if ok then s.marks (marks log) else marks log :=
  List.foldl_append

theorem Table.used_of_modify {tb : Table} {key k : Key} {f : Row → Row}
    (h : (tb.modify key f k).map Row.fileUsed = some true) :
    (k = key ∧ ∃ row, tb k = some row ∧ (f row).fileUsed = true) ∨
      (k ≠ key ∧ (tb k).map Row.fileUsed = some true) := by
  unfold Table.modify at h
  by_cases hk : k = key
  · rw [if_pos hk, Option.map_map] at h
    obtain ⟨row, hrow, hused⟩ := Option.map_eq_some_iff.mp h
    exact .inl ⟨hk, row, hrow, hused⟩
  · rw [if_neg hk] at h
    exact .inr ⟨hk, h⟩

/-- A row that is used after a statement was marked by it, or it was used before and is not
released. -/
theorem Stmt.used_apply {s : Stmt} {now : Int} {tb : Table} {k : Key} {marked : List Key}
    (hbefore : (tb k).map Row.fileUsed = some true → k ∈ marked)
    (h : (s.apply now tb k).map Row.fileUsed = some true) : k ∈ s.marks marked := by
  cases s with
  | startTransaction | commit | rollback => exact hbefore h
  | record | setSize | lastRequest | requested | reset | resetRanges =>
    rcases Table.used_of_modify h with ⟨-, row, hrow, hused⟩ | ⟨-, hused⟩
    · exact hbefore (by rw [hrow]; exact congrArg some hused)
    · exact hbefore hused
  | insert key =>
    simp only [Stmt.apply, Table.insert] at h
    simp only [Stmt.marks, List.mem_cons, List.mem_filter, decide_eq_true_eq]
    by_cases hk : k = key
    · exact .inl hk
    · rw [if_neg fun hc => hk hc.1] at h
      exact .inr ⟨hbefore h, hk⟩
  | lock key =>
    simp only [Stmt.marks, List.mem_cons, List.mem_filter, decide_eq_true_eq]
    rcases Table.used_of_modify h with ⟨hk, -⟩ | ⟨hk, hused⟩
    · exact .inl hk
    · exact .inr ⟨hbefore hused, hk⟩
  | liberate key =>
    simp only [Stmt.marks, List.mem_filter, decide_eq_true_eq]
    rcases Table.used_of_modify h with ⟨-, row, -, hfalse⟩ | ⟨hk, hused⟩
    · cases hfalse
    · exact ⟨hbefore hused, hk⟩
  | insertFree key =>
    simp only [Stmt.apply, Table.insert] at h
    split at h
    · cases h
    · exact hbefore h
  | identify key file =>
    simp only [Stmt.apply, Table.rename] at h
    split at h
    · rcases Table.used_of_modify h with ⟨-, row, -, hfalse⟩ | ⟨-, hused⟩
      · cases hfalse
      · exact hbefore hused
    · split at h
      · exact hbefore h
      · dsimp only at h
        split at h
        · rw [Option.map_map] at h
          obtain ⟨row, -, hfalse⟩ := Option.map_eq_some_iff.mp h
          cases hfalse
        · split at h
          · cases h
          · exact hbefore h

/-- **What `marks` says about the table**: a row that the statements of a log leave used was used
before, or it is marked. -/
theorem Table.run_used (now : Int) {tb : Table} (hfree : ∀ k, (tb k).map Row.fileUsed ≠ some true)
    (log : Log) (k : Key) (h : (tb.run now log k).map Row.fileUsed = some true) : k ∈ marks log := by
  induction log using List.reverseRec with
  | nil => exact absurd h (hfree k)
  | append_singleton log s ih =>
    rw [marks_append]
    rw [Table.run_append] at h
    change ((if s.2 then s.1.apply now (tb.run now log) else tb.run now log) k).map _ = _ at h
    cases hok : s.2 with
    | false =>
      rw [hok] at h
      exact ih h
    | true =>
      rw [hok, if_pos rfl] at h
      exact Stmt.used_apply ih h

/-! ## A lock that Cache forgets -/

/-- `Cache` returns behind `lockFile` without releasing the row that `c` has locked: the name of a
netflix file has less than three parts, the domain is one that is rewritten, or the file is not there
and there is no space for it or its row cannot be reset. -/
def Asked.Forgets (db : Db) (asked : Asked) (c : Connection) : Prop :=
  ∀ search ∈ searchDirectories c.r.file (c.r.domain = netflix) false asked.directories,
    c.r.domain = rewriteDomain ∨
      (search.1 = false ∧
        (search.2 = false ∨
          (c.operation ≠ some .insert ∧ db c.log (.reset c.r.key c.r.total_file_size) = false)))

instance (db : Db) (asked : Asked) (c : Connection) : Decidable (asked.Forgets db c) :=
  inferInstanceAs (Decidable (∀ search ∈
    searchDirectories c.r.file (c.r.domain = netflix) false asked.directories, _ ∨ (_ ∧ (_ ∨ (_ ∧ _)))))

/-- `Cache` locks a row and forgets it. -/
def Connection.Forgets (db : Db) (asked : Asked) (c : Connection) : Prop :=
  (c.ask asked).r.isMatch = true ∧
    ∃ lock ∈ (c.ask asked).lockFile db asked.found, 0 < lock.1 ∧ asked.Forgets db lock.2

instance (db : Db) (asked : Asked) (c : Connection) : Decidable (c.Forgets db asked) :=
  inferInstanceAs (Decidable ((c.ask asked).r.isMatch = true ∧
    ∃ lock ∈ (c.ask asked).lockFile db asked.found, 0 < lock.1 ∧ asked.Forgets db lock.2))

/-! ## A mark that can be released -/

/-- The statements that release a row succeed. -/
def Liberates (db : Db) : Prop := ∀ log key, db log (.liberate key) = true

/-- A row that the connection has marked is its own, and nothing stops `liberate_edition`. -/
def Releasable (t : Transfer) : Prop :=
  marks t.log = [] ∨
    (marks t.log = [t.r.key] ∧ t.exists_transaction_editing_file = false ∧ t.was_liberate = false)

/-- The invariant of a call; `lost` says that `Cache` has forgotten the lock. -/
structure Locked (lost : Prop) (t : Transfer) : Prop where
  releasable : Releasable t
  held : ¬ lost → t.r.isMatch = false → marks t.log = []

/-- What the lock depends on is the same. -/
structure SameLock (t t' : Transfer) : Prop where
  marks : marks t'.log = marks t.log
  r : t'.r = t.r
  exists_transaction : t'.exists_transaction_editing_file = t.exists_transaction_editing_file
  was_liberate : t'.was_liberate = t.was_liberate

/-- A statement that neither marks nor releases a row. -/
def Stmt.Neutral (s : Stmt) : Prop := ∀ marked, s.marks marked = marked

section Lock

variable {db : Db} {lost : Prop} {t t' t'' : Transfer}

theorem SameLock.refl (t : Transfer) : SameLock t t := ⟨rfl, rfl, rfl, rfl⟩

theorem SameLock.trans (h : SameLock t t') (h' : SameLock t' t'') : SameLock t t'' :=
  ⟨h'.marks.trans h.marks, h'.r.trans h.r, h'.exists_transaction.trans h.exists_transaction,
    h'.was_liberate.trans h.was_liberate⟩

theorem Releasable.same (h : Releasable t) (hs : SameLock t t') : Releasable t' := by
  unfold Releasable
  rw [hs.marks, hs.r, hs.exists_transaction, hs.was_liberate]
  exact h

theorem Locked.same (h : Locked lost t) (hs : SameLock t t') : Locked lost t' := by
  refine ⟨h.releasable.same hs, fun hlost hmatch => ?_⟩
  rw [hs.marks]
  exact h.held hlost (by rw [← hs.r]; exact hmatch)

/-- A connection that has marked no row. -/
theorem Locked.free (h : marks t.log = []) : Locked lost t := ⟨.inl h, fun _ _ => h⟩

/-- Only a marked row can be lost. -/
theorem Locked.marked (h : Locked lost t) : Locked (marks t.log ≠ [] ∧ lost) t := by
  refine ⟨h.releasable, fun hnot hmatch => ?_⟩
  by_contra hmarked
  exact hmarked (h.held (fun hlost => hnot ⟨hmarked, hlost⟩) hmatch)

/-- A connection that uses the entry. -/
theorem Locked.using (h : Releasable t) (hmatch : t.r.isMatch = true) : Locked lost t :=
  ⟨h, fun _ hfalse => by rw [hmatch] at hfalse; cases hfalse⟩

theorem set_same {s : Stmt} (hs : s.Neutral) (db : Db) (t : Transfer) :
    SameLock t (t.set db s).2 := by
  refine ⟨?_, rfl, rfl, rfl⟩
  simp only [Transfer.set, marks_append]
  split
  · exact hs _
  · rfl

/-- `liberate_edition` releases what can be released. -/
theorem liberateEdition_marks (hdb : Liberates db) (h : Releasable t) :
    marks (liberateEdition db t).log = [] := by
  unfold liberateEdition
  rcases h with hfree | ⟨hmark, hx, hw⟩
  · split
    · exact hfree
    · simp only [Transfer.set, marks_append, hdb t.log, if_true, hfree, Stmt.marks, List.filter_nil]
  · rw [if_neg (by simp [hx, hw])]
    simp [Transfer.set, marks_append, hdb t.log, hmark, Stmt.marks]

/-! ## The body -/

theorem Told.same {part : BodyPart} (h : Told db t part) (hvalue : 0 ≤ part.BodyLength) :
    SameLock t part.t := by
  have hframe := h.frame (by omega)
  refine ⟨?_, hframe.r, hframe.exists_transaction, hframe.was_liberate⟩
  cases h with
  | silent frame log => rw [log]
  | saved frame log =>
    rw [log, marks_append]
    split <;> rfl
  | released value r hit log was_liberate => omega

theorem appendCurrent_same (t : Transfer) : SameLock t (appendCurrent t) := by
  unfold appendCurrent
  split
  · split <;> exact ⟨rfl, rfl, rfl, rfl⟩
  · exact .refl t

theorem updateMiss_releasable (hdb : Liberates db) (h : Releasable t) :
    Releasable (updateMiss db t) ∧ (updateMiss db t).r = t.r := by
  have hcur := appendCurrent_same t
  unfold updateMiss
  dsimp only
  split
  · exact ⟨h.same ⟨hcur.marks, hcur.r, hcur.exists_transaction, hcur.was_liberate⟩, hcur.r⟩
  · have hrecord : SameLock t
        (if (appendCurrent t).connected then
          ((appendCurrent t).set db (appendCurrent t).recordStmt).2 else appendCurrent t) := by
      split
      · exact hcur.trans (set_same (fun _ => rfl) db _)
      · exact hcur
    refine ⟨.inl ?_, ?_⟩
    · exact liberateEdition_marks hdb (h.same
        ⟨hrecord.marks, hrecord.r, hrecord.exists_transaction, hrecord.was_liberate⟩)
    · exact (liberateEdition_r _ _).trans hrecord.r

theorem updateHit_same (db : Db) (t : Transfer) : SameLock t (updateHit db t) := by
  unfold updateHit
  split
  · dsimp only
    split
    · exact ⟨(set_same (s := .requested t.r.key t.filesended) (fun _ => rfl) db t).marks, rfl, rfl, rfl⟩
    · exact ⟨rfl, rfl, rfl, rfl⟩
  · exact .refl t

/-- `Update` up to the release of the row. -/
theorem update_before (hdb : Liberates db) (h : Releasable t) :
    ∃ t₁, update db t = { (if t₁.r.isMatch then liberateEdition db t₁ else t₁) with
        lranges := [], passed := [], brange := [] } ∧
      t₁.r = t.r ∧ Releasable t₁ ∧ (t.r.isMatch = false → SameLock t t₁) := by
  refine ⟨_, rfl, ?_⟩
  split
  · next hmode =>
    obtain ⟨hmiss, hr⟩ := updateMiss_releasable hdb h
    exact ⟨hr, hmiss, fun hfalse => by rw [hfalse] at hmode; cases hmode.1⟩
  · split
    · have hhit := updateHit_same db t
      exact ⟨hhit.r, h.same hhit, fun _ => hhit⟩
    · exact ⟨rfl, h, fun _ => .refl t⟩

/-- `Update` releases the row of a connection that uses the entry. -/
theorem update_locked (hdb : Liberates db) (h : Locked lost t) :
    Locked lost (update db t) ∧ (¬ lost → marks (update db t).log = []) := by
  obtain ⟨t₁, hupdate, hr, hrel, hsame⟩ := update_before hdb h.releasable
  rw [hupdate, hr]
  cases hmatch : t.r.isMatch with
  | false =>
    have hs : SameLock t { t₁ with lranges := [], passed := [], brange := [] } :=
      (hsame hmatch).trans ⟨rfl, rfl, rfl, rfl⟩
    exact ⟨h.same hs, fun hlost => hs.marks.trans (h.held hlost hmatch)⟩
  | true =>
    have hfree := liberateEdition_marks hdb hrel
    exact ⟨.free hfree, fun _ => hfree⟩

/-! ## Cache -/

/-- What `lockFile` leaves to a connection that has marked no row: no mark, or the one of the row it
has locked. -/
structure LockMarked (t t' : Transfer) (lfile : Int) : Prop where
  marked : marks t.log = [] → marks t'.log = [] ∨ (0 < lfile ∧ marks t'.log = [t'.r.key])
  isMatch : t'.r.isMatch = t.r.isMatch
  was_liberate : t'.was_liberate = t.was_liberate

/-- A statement that locks a row, and the end of the transaction. -/
theorem lock_marked {s : Stmt} (hs : ∀ marked, s.marks marked = t.r.key :: marked.filter (· ≠ t.r.key))
    {lfile : Int} {t' : Transfer}
    (hlock : (lfile, t') = if (t.set db s).1 then (1, ((t.set db s).2.set db .commit).2)
      else (-1, ((t.set db s).2.set db .rollback).2)) : LockMarked t t' lfile := by
  cases hok : (t.set db s).1 with
  | true =>
    rw [hok, if_pos rfl] at hlock
    cases hlock
    have hcommit := set_same (s := .commit) (fun _ => rfl) db (t.set db s).2
    refine ⟨fun h => .inr ⟨by decide, ?_⟩, rfl, rfl⟩
    rw [hcommit.marks]
    have hok' : db t.log s = true := hok
    simp only [Transfer.set, marks_append, hok', if_true, hs, h, List.filter_nil]
  | false =>
    rw [hok, if_neg (by decide)] at hlock
    cases hlock
    have hrollback := set_same (s := .rollback) (fun _ => rfl) db (t.set db s).2
    refine ⟨fun h => .inl ?_, rfl, rfl⟩
    rw [hrollback.marks]
    have hok' : db t.log s = false := hok
    simp only [Transfer.set, marks_append, hok', Bool.false_eq_true, if_false, h]

/-- A statement that ends the transaction without a lock. -/
theorem unlocked_marked {s : Stmt} (hs : s.Neutral) (db : Db) (t : Transfer) (lfile : Int) :
    LockMarked t (t.set db s).2 lfile :=
  ⟨fun h => .inl ((set_same hs db t).marks.trans h), rfl, rfl⟩

theorem lockRow_marked {lfile : Int} (h : lockRow db t = (lfile, t')) : LockMarked t t' lfile :=
  lock_marked (s := .lock t.r.key) (fun _ => rfl) h.symm

theorem lockFound_marked {singleDomain : Bool} {found : Option (Option LockRow)} {lfile : Int}
    (hlock : lockFound db singleDomain found t = (lfile, t')) : LockMarked t t' lfile := by
  unfold lockFound at hlock
  split at hlock
  · cases hlock
    exact unlocked_marked (fun _ => rfl) db t _
  · split at hlock
    · cases hlock
      exact unlocked_marked (fun _ => rfl) db t _
    · exact lock_marked (s := .insert t.r.key) (fun _ => rfl) hlock.symm
  · next row =>
    obtain ⟨t₁, ht₁, hlog, hmatch, hw⟩ : ∃ t₁ : Transfer,
        t₁ = (if singleDomain then { t with r := { t.r with file := row.file } } else t) ∧
        t₁.log = t.log ∧ t₁.r.isMatch = t.r.isMatch ∧ t₁.was_liberate = t.was_liberate := by
      refine ⟨_, rfl, ?_⟩
      split <;> exact ⟨rfl, rfl, rfl⟩
    dsimp only at hlock
    rw [← ht₁] at hlock
    have hmarked : LockMarked t₁ t' lfile := by
      split at hlock
      · exact lockRow_marked hlock
      · split at hlock
        · cases hlock
          exact unlocked_marked (fun _ => rfl) db t₁ _
        · cases hlock
          exact unlocked_marked (fun _ => rfl) db t₁ _
        · exact lockRow_marked hlock
    exact ⟨fun h => hmarked.marked (by rw [hlog]; exact h), hmarked.isMatch.trans hmatch,
      hmarked.was_liberate.trans hw⟩

theorem lockFile_marked {singleDomain : Bool} {found : Option (Option LockRow)} {lfile : Int}
    (hlock : lockFile db singleDomain found t = some (lfile, t')) : LockMarked t t' lfile := by
  unfold lockFile at hlock
  dsimp only at hlock
  split at hlock
  · cases hlock
    exact ⟨.inl, rfl, rfl⟩
  · split at hlock
    · cases hlock
    · have hstart := set_same (s := .startTransaction) (fun _ => rfl) db t
      split at hlock
      · have hfound := lockFound_marked (t := { (t.set db .startTransaction).2 with
          operation := some .select }) (Option.some.inj hlock)
        exact ⟨fun h => hfound.marked (hstart.marks.trans h), hfound.isMatch, hfound.was_liberate⟩
      · cases hlock
        exact unlocked_marked (fun _ => rfl) db t _

variable {c c' : Connection}

theorem plan_same (c : Connection) : SameLock c.toTransfer c.plan.toTransfer := ⟨rfl, rfl, rfl, rfl⟩

theorem sizeKnown_same (h : c.sizeKnown = some c') : SameLock c.toTransfer c'.toTransfer := by
  obtain ⟨c₁, htop, h⟩ := Option.bind_eq_some_iff.mp h
  obtain ⟨filesizeneto, -, rfl⟩ := Option.map_eq_some_iff.mp h
  have hchange : c.changeTop.toTransfer = c.toTransfer := by
    unfold Connection.changeTop
    split <;> rfl
  have htruncate : c₁.toTransfer = c.changeTop.toTransfer := by
    obtain ⟨first, -, htop⟩ := Option.bind_eq_some_iff.mp htop
    split at htop
    · obtain ⟨top, -, rfl⟩ := Option.map_eq_some_iff.mp htop
      split <;> rfl
    · cases htop
      rfl
  have hsame : SameLock c.toTransfer c₁.toTransfer := by
    rw [htruncate, hchange]
    exact .refl _
  exact hsame.trans ⟨rfl, rfl, rfl, rfl⟩

theorem sizeUnknown_same (c : Connection) : SameLock c.toTransfer c.sizeUnknown.toTransfer := by
  unfold Connection.sizeUnknown
  split <;> exact ⟨rfl, rfl, rfl, rfl⟩

theorem loadRanges_same (db : Db) (row : SelectedRow) (c : Connection) :
    SameLock c.toTransfer (c.loadRanges db row).toTransfer := by
  unfold Connection.loadRanges
  split
  · exact ⟨rfl, rfl, rfl, rfl⟩
  · exact ⟨(set_same (s := .resetRanges c.r.key) (fun _ => rfl) db c.toTransfer).marks, rfl, rfl, rfl⟩

/-- A connection that gives up and releases its row. -/
theorem giveUp_locked (hdb : Liberates db) (h : Releasable c.toTransfer) :
    Locked lost (c.giveUp.liberateEdition db).toTransfer := by
  refine .free (liberateEdition_marks hdb ?_)
  exact h

theorem learnSize_same (db : Db) (c : Connection) :
    SameLock c.toTransfer (c.learnSize db).toTransfer := by
  unfold Connection.learnSize
  split
  · exact ⟨(set_same (s := .setSize _ _) (fun _ => rfl) db c.toTransfer).marks, rfl, rfl, rfl⟩
  · exact .refl _

theorem planStored_same (h : c.planStored = some c') : SameLock c.toTransfer c'.toTransfer := by
  unfold Connection.planStored at h
  split at h
  · exact sizeKnown_same h
  · cases h
    exact sizeUnknown_same c

theorem lastRequest_same (db : Db) (c : Connection) : SameLock c.toTransfer
    (if c.hit then (c.set db (.lastRequest c.r.key)).2 else c).toTransfer := by
  split
  · exact set_same (s := .lastRequest c.r.key) (fun _ => rfl) db c.toTransfer
  · exact .refl _

/-- A stored file: the connection gives up and releases its row, or it uses the entry. -/
theorem fileStored_cases {row : SelectedRow} (h : c.fileStored db row = some c') :
    c'.toTransfer = (c.giveUp.liberateEdition db).toTransfer ∨ SameLock c.toTransfer c'.toTransfer := by
  unfold Connection.fileStored at h
  dsimp only at h
  split at h
  · cases h
    exact .inl rfl
  · obtain ⟨c₂, hplanned, rfl⟩ := Option.map_eq_some_iff.mp h
    have hlearn := learnSize_same db { c with size_orig_file := row.size }
    have hsame : SameLock c.toTransfer c₂.toTransfer :=
      .trans hlearn ((loadRanges_same db row _).trans (planStored_same hplanned))
    exact .inr (hsame.trans (lastRequest_same db c₂))

theorem fileStored_locked (hdb : Liberates db) {row : SelectedRow} (h : Releasable c.toTransfer)
    (hmatch : c.r.isMatch = true) (hstored : c.fileStored db row = some c') :
    Locked lost c'.toTransfer := by
  rcases fileStored_cases hstored with hgiveUp | hsame
  · rw [hgiveUp]
    exact giveUp_locked hdb h
  · exact .using (h.same hsame) (by rw [hsame.r]; exact hmatch)

theorem fileFound_locked (hdb : Liberates db) {selected : Option (Option SelectedRow)}
    (h : Releasable c.toTransfer) (hmatch : c.r.isMatch = true)
    (hfound : c.fileFound db selected = some c') : Locked lost c'.toTransfer := by
  unfold Connection.fileFound at hfound
  dsimp only at hfound
  split at hfound
  · cases hfound
    exact giveUp_locked hdb h
  · cases hfound
    exact giveUp_locked hdb h
  · exact fileStored_locked (c := { c with operation := some .select }) hdb h hmatch hfound

theorem forgotten (h : Releasable c.toTransfer) (hlost : lost) : Locked lost c.giveUp.toTransfer :=
  ⟨h, fun hnot => absurd hlost hnot⟩

theorem resetRow_locked (h : Releasable c.toTransfer) (hmatch : c.r.isMatch = true)
    (hlost : c.operation ≠ some .insert ∧ db c.log (.reset c.r.key c.r.total_file_size) = false →
      lost) : Locked lost (c.resetRow db).toTransfer := by
  unfold Connection.resetRow
  split
  · next hupdate =>
    have hset : Releasable (c.set db (.reset c.r.key c.r.total_file_size)).2.toTransfer :=
      h.same (set_same (s := .reset c.r.key c.r.total_file_size) (fun _ => rfl) db c.toTransfer)
    dsimp only
    split
    · exact .using hset hmatch
    · next hok => exact forgotten hset (hlost ⟨hupdate, Bool.eq_false_iff.mpr hok⟩)
  · exact .using h hmatch

/-- A file that is not there: the lock is forgotten unless there is space, and the row is new or can be
reset. -/
theorem fileMissing_locked {disco_con_espacio : Bool} (h : Releasable c.toTransfer)
    (hmatch : c.r.isMatch = true)
    (hlost : disco_con_espacio = false ∨ (c.operation ≠ some .insert ∧
      db c.log (.reset c.r.key c.r.total_file_size) = false) → lost) :
    Locked lost (c.fileMissing db disco_con_espacio).toTransfer := by
  have hspace : ∀ c₁ : Connection, c₁.r = c.r → c₁.log = c.log → c₁.operation = c.operation →
      Releasable c₁.toTransfer → Locked lost (if disco_con_espacio then c₁.resetRow db
        else c₁.giveUp).toTransfer := by
    intro c₁ hr hlog hop hrel
    cases hspace : disco_con_espacio with
    | false => exact forgotten hrel (hlost (.inl hspace))
    | true =>
      refine resetRow_locked hrel (by rw [hr]; exact hmatch) fun hfails => hlost (.inr ?_)
      rwa [hr, hlog, hop] at hfails
  unfold Connection.fileMissing
  dsimp only
  apply hspace <;> split <;> first | rfl | exact h

/-- The ways that `Cache` takes behind `lockFile`; `c₁` is the connection with the length of its range. -/
inductive UsesEntry (db : Db) (asked : Asked) (c c' : Connection) : Prop
  | thrown
      (search : searchDirectories c.r.file (c.r.domain = netflix) false asked.directories = none)
      (result : c'.toTransfer =
        ({ c with exists_transaction_editing_file := false } : Connection).giveUp.toTransfer)
  | found {search : Bool × Bool} (c₁ : Connection)
      (searched :
        searchDirectories c.r.file (c.r.domain = netflix) false asked.directories = some search)
      (sized : c₁.toTransfer = { c.toTransfer with
        exists_transaction_editing_file := false, filesizeneto := c₁.filesizeneto })
      (result : (c.r.domain = rewriteDomain ∧
          c'.toTransfer = { c₁.toTransfer with r := { c₁.r with isMatch := false } }) ∨
        (search.1 = false ∧ c' = c₁.fileMissing db search.2) ∨
        c₁.fileFound db asked.selected = some c')

theorem useEntry_cases {asked : Asked} (h : c.useEntry db asked = some c') :
    UsesEntry db asked c c' := by
  unfold Connection.useEntry at h
  dsimp only at h
  split at h
  · next hsearch =>
    cases h
    exact .thrown hsearch rfl
  · next file_in_cache disco_con_espacio hsearch =>
    obtain ⟨c₁, hsized, h⟩ := Option.bind_eq_some_iff.mp h
    have h₁ : c₁.toTransfer = { c.toTransfer with
        exists_transaction_editing_file := false, filesizeneto := c₁.filesizeneto } := by
      split at hsized
      · obtain ⟨filesizeneto, -, rfl⟩ := Option.map_eq_some_iff.mp hsized
        rfl
      · cases hsized
        rfl
    have hr : c₁.r = c.r := by rw [h₁]
    refine .found c₁ hsearch h₁ ?_
    split at h
    · next hrewrite =>
      cases h
      exact .inl ⟨by rw [← hr]; exact hrewrite, rfl⟩
    · split at h
      · next hmissing =>
        cases h
        exact .inr (.inl ⟨Bool.eq_false_iff.mpr hmissing, rfl⟩)
      · exact .inr (.inr h)

theorem useEntry_locked (hdb : Liberates db) {asked : Asked}
    (h : marks c.log = [] ∨ (marks c.log = [c.r.key] ∧ c.was_liberate = false))
    (hmatch : c.r.isMatch = true) (hlost : asked.Forgets db c → lost)
    (huse : c.useEntry db asked = some c') : Locked lost c'.toTransfer := by
  have hrel : Releasable { c.toTransfer with exists_transaction_editing_file := false } := by
    rcases h with hfree | ⟨hmark, hw⟩
    · exact .inl hfree
    · exact .inr ⟨hmark, rfl, hw⟩
  cases useEntry_cases huse with
  | thrown search result =>
    rw [result]
    exact forgotten hrel (hlost fun found hs => by rw [search] at hs; cases hs)
  | @found search c₁ searched sized result =>
    have hr : c₁.r = c.r := by rw [sized]
    have hrel₁ : Releasable c₁.toTransfer := by
      rw [sized]
      exact hrel
    have hmatch₁ : c₁.r.isMatch = true := by rw [hr]; exact hmatch
    rcases result with ⟨hrewrite, hresult⟩ | ⟨hmissing, rfl⟩ | hfound
    · rw [hresult]
      exact ⟨hrel₁, fun hnot => absurd (hlost fun _ _ => .inl hrewrite) hnot⟩
    · refine fileMissing_locked hrel₁ hmatch₁ fun hfails => hlost fun found hs => ?_
      rw [searched] at hs
      cases hs
      have hlog : c₁.log = c.log := by rw [sized]
      have hop : c₁.operation = c.operation := by rw [sized]
      rw [hr, hlog, hop] at hfails
      exact .inr ⟨hmissing, hfails⟩
    · exact fileFound_locked hdb hrel₁ hmatch₁ hfound

/-- The ways that `Cache` takes. -/
inductive Caches (db : Db) (asked : Asked) (c c' : Connection) : Prop
  | unasked (unmatched : (c.ask asked).r.isMatch = false) (result : c' = c.ask asked)
  | refused {lfile : Int} {t : Transfer} (matched : (c.ask asked).r.isMatch = true)
      (locked : lockFile db ((c.ask asked).r.domain = netflix) asked.found
        (c.ask asked).toTransfer = some (lfile, t))
      (notTaken : lfile ≤ 0)
      (result : c' = { ({ c.ask asked with toTransfer := t } : Connection).giveUp with
        exists_transaction_editing_file := true })
  | used {lfile : Int} {t : Transfer} (matched : (c.ask asked).r.isMatch = true)
      (locked : lockFile db ((c.ask asked).r.domain = netflix) asked.found
        (c.ask asked).toTransfer = some (lfile, t))
      (taken : 0 < lfile)
      (uses : ({ c.ask asked with toTransfer := t } : Connection).useEntry db asked = some c')

theorem cache_cases {asked : Asked} (h : c.cache db asked = some c') : Caches db asked c c' := by
  unfold Connection.cache at h
  dsimp only at h
  split at h
  · next hmatch =>
    obtain ⟨⟨lfile, c₁⟩, hlock, h⟩ := Option.bind_eq_some_iff.mp h
    obtain ⟨⟨n, t⟩, ht, heq⟩ := Option.map_eq_some_iff.mp hlock
    cases heq
    dsimp only at h
    split at h
    · next hle =>
      cases h
      exact .refused hmatch ht hle rfl
    · next hpos => exact .used hmatch ht (not_le.mp hpos) h
  · next hmatch =>
    cases h
    exact .unasked (Bool.eq_false_iff.mpr hmatch) rfl

/-- The start of `Cache` tells nothing. -/
theorem ask_start (asked : Asked) (c : Connection) :
    (c.ask asked).log = c.log ∧ (c.ask asked).was_liberate = false := by
  unfold Connection.ask
  dsimp only
  split <;> exact ⟨rfl, rfl⟩

/-- **The lock that `Cache` leaves**, for a connection that has marked no row. -/
theorem cache_locked (hdb : Liberates db) {asked : Asked} (h : marks c.log = [])
    (hcache : c.cache db asked = some c') : Locked (c.Forgets db asked) c'.toTransfer := by
  obtain ⟨hlog, hw⟩ := ask_start asked c
  have hfree : marks (c.ask asked).log = [] := by
    rw [hlog]
    exact h
  cases cache_cases hcache with
  | unasked unmatched result =>
    rw [result]
    exact .free hfree
  | refused matched locked notTaken result =>
    rw [result]
    rcases (lockFile_marked locked).marked hfree with hnone | ⟨hpos, -⟩
    · exact .free hnone
    · omega
  | @used lfile t matched locked taken uses =>
    have hmarked := lockFile_marked locked
    have hlock : (c.ask asked).lockFile db asked.found =
        some (lfile, { c.ask asked with toTransfer := t }) := by
      unfold Connection.lockFile
      rw [locked]
      rfl
    refine useEntry_locked hdb ?_ (hmarked.isMatch.trans matched)
      (fun hforgets => ⟨matched, _, hlock, taken, hforgets⟩) uses
    rcases hmarked.marked hfree with hnone | ⟨-, hmark⟩
    · exact .inl hnone
    · exact .inr ⟨hmark, hmarked.was_liberate.trans hw⟩

/-! ## The header -/

theorem updateFileSizeinPartial_same {header : Str}
    (h : c.updateFileSizeinPartial db header = some c') : SameLock c.toTransfer c'.toTransfer := by
  unfold Connection.updateFileSizeinPartial at h
  split at h
  · cases h
  · split at h <;> cases h
    · exact set_same (s := .setSize c.r.key _) (fun _ => rfl) db c.toTransfer
    · exact .refl _

theorem resize_same (db : Db) (cl total : Int) (c : Connection) :
    SameLock c.toTransfer (c.resize db cl total).toTransfer := by
  unfold Connection.resize
  have hset : ∀ c₁ : Connection, SameLock c.toTransfer c₁.toTransfer →
      SameLock c.toTransfer
        (Connection.set db { c₁ with size_orig_file := total } (.setSize c₁.r.key total)).2.toTransfer :=
    fun c₁ h₁ => h₁.trans (set_same (s := .setSize c₁.r.key total) (fun _ => rfl) db c₁.toTransfer)
  dsimp only
  apply hset
  split <;> split <;> exact ⟨rfl, rfl, rfl, rfl⟩

theorem replan_same (db : Db) (c : Connection) :
    SameLock c.toTransfer (c.replan db).toTransfer := by
  unfold Connection.replan
  split
  · exact (plan_same c).trans (lastRequest_same db c.plan)
  · exact .refl _

theorem moveTop_same (cl total : Int) (c : Connection) :
    SameLock c.toTransfer { c.moveTop total with filesizeneto := cl }.toTransfer := by
  unfold Connection.moveTop
  split <;> exact ⟨rfl, rfl, rfl, rfl⟩

theorem cache2_same {cl : Int} (h : c.cache2 db cl = some c') :
    SameLock c.toTransfer c'.toTransfer := by
  obtain ⟨total, -, rfl⟩ := Option.map_eq_some_iff.mp h
  have hresize : SameLock c.toTransfer
      (if c.Resizes then c.resize db cl total else c).toTransfer := by
    split
    · exact resize_same db cl total c
    · exact .refl _
  exact (hresize.trans (moveTop_same cl total _)).trans (replan_same db _)

theorem readUnknown_same {read : Bool × Str} {stop : Bool}
    (h : c.readUnknown db read = some (stop, c')) : SameLock c.toTransfer c'.toTransfer := by
  obtain ⟨c₁, hsized, h⟩ := Option.bind_eq_some_iff.mp h
  have h₁ : SameLock c.toTransfer c₁.toTransfer := by
    split at hsized
    · obtain ⟨c₂, hupdate, rfl⟩ := Option.map_eq_some_iff.mp hsized
      refine (updateFileSizeinPartial_same hupdate).trans ?_
      split <;> exact .refl _
    · cases hsized
      exact .refl _
  dsimp only at h
  split at h
  · cases h
    exact h₁
  · obtain ⟨c₂, hcache2, heq⟩ := Option.map_eq_some_iff.mp h
    cases heq
    exact h₁.trans (cache2_same hcache2)

theorem readMissed_same {read : Bool × Str} {ok : Bool} {header : HeaderText}
    (h : c.readMissed db read = some (ok, header, c')) : SameLock c.toTransfer c'.toTransfer := by
  obtain ⟨c₁, hcache2, heq⟩ := Option.map_eq_some_iff.mp h
  cases heq
  split at hcache2
  · exact cache2_same hcache2
  · cases hcache2
    exact .refl _

theorem makeHeader_locked (hdb : Liberates db) {result : Option Str} {again : Bool × Str} {ok : Bool}
    {header : HeaderText} (h : Locked lost c.toTransfer)
    (hmake : c.makeHeader db result again = some (ok, header, c')) : Locked lost c'.toTransfer := by
  unfold Connection.makeHeader at hmake
  split at hmake
  · cases hmake
    exact h
  · split at hmake
    · cases hmake
      exact giveUp_locked (c := { c with rewrited := true }) hdb h.releasable
    · split at hmake
      · cases hmake
        exact h
      · split at hmake
        · cases hmake
          exact h
        · exact h.same (readMissed_same hmake)

theorem readHeader_locked (hdb : Liberates db) {read again : Bool × Str} {ok : Bool}
    {header : HeaderText} (h : Locked lost c.toTransfer)
    (hread : c.readHeader db read again = some (ok, header, c')) : Locked lost c'.toTransfer := by
  unfold Connection.readHeader at hread
  split at hread
  · obtain ⟨⟨stop, c₁⟩, hunknown, hread⟩ := Option.bind_eq_some_iff.mp hread
    have h₁ := h.same (readUnknown_same hunknown)
    dsimp only at hread
    split at hread
    · cases hread
      exact h₁
    · exact makeHeader_locked hdb h₁ hread
  · exact makeHeader_locked hdb h hread

theorem getContentLength_locked (hdb : Liberates db) (config : Str → Int)
    (h : Locked lost c.toTransfer) : Locked lost (c.getContentLength db config).2.toTransfer := by
  unfold Connection.getContentLength
  split
  · exact h
  · split
    · exact .free (liberateEdition_marks hdb h.releasable)
    · exact h

theorem getResponse_locked (hdb : Liberates db) (h : Locked lost c.toTransfer) :
    Locked lost (c.getResponse db).2.toTransfer := by
  unfold Connection.getResponse
  split
  · exact h
  · split
    · exact giveUp_locked hdb h.releasable
    · exact h

/-- After `GetResponse`, a connection that uses the entry has a response that is cached. -/
theorem getResponse_uses (db : Db) (c : Connection) (h : (c.getResponse db).2.r.isMatch = true) :
    (c.getResponse db).2 = c ∧ (c.hit = true ∨ c.HTMLResponse = 200 ∨ c.HTMLResponse = 206) ∧
      (c.getResponse db).1 ≠ 304 ∧ (c.getResponse db).1 ≠ 204 := by
  unfold Connection.getResponse at h ⊢
  by_cases hhit : c.hit = true
  · rw [if_pos hhit]
    exact ⟨rfl, .inl hhit, (by decide : (200 : Int) ≠ 304), (by decide : (200 : Int) ≠ 204)⟩
  · rw [if_neg hhit] at h ⊢
    split at h
    · rw [show (c.giveUp.liberateEdition db).r = c.giveUp.r from liberateEdition_r db _] at h
      cases h
    · next hcached =>
      rw [if_neg hcached]
      have hmatch : c.r.isMatch = true := h
      refine ⟨rfl, .inr ?_, ?_, ?_⟩ <;> simp only [hmatch, true_and] at hcached <;> omega

end Lock

end Haarp
