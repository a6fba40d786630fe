import Haarp.Cache.Saving

/-!
# The statistics of a miss

`SubUpdate` and `Update` write two numbers of a miss: the column `np` of the row grows by the member
`np`, and `addUserCache` credits bytes to the browser. The bytes are counted from the last save on
(`oldfilesended`); `np` is counted from the start of the session, so a save after the first missing
block is complete counts that block again in the row. `miss_countedOnce_iff` says for which sessions
both numbers come out right.
-/

namespace Haarp

open Base

/-! ## Sessions -/

/-- A miss and its statistics: whether a call has returned -1, and the bytes that `addUserCache` has
credited so far. -/
structure MissSession where
  t : Transfer
  file : Str
  ended : Bool
  credited : Int
  deriving DecidableEq

/-- The timer may show anything before a call, and the server may send anything in it. -/
inductive SessionEvent
  | timer (timerecord count_wait : Int)
  | piece (now : Int) (recv : Option Str)

/-- A call of `ReadBodyPart`; there is none behind one that failed or when the plan is used up. -/
def MissSession.step (db : Db) (s : MissSession) : SessionEvent → Option MissSession
  | .timer timerecord count_wait => some { s with t := { s.t with timerecord, count_wait } }
  | .piece now recv =>
    if s.ended ∨ s.t.brange.isEmpty then none
    else
      (readBodyPart db now s.t s.file recv).map fun part =>
        { t := part.t, file := part.file, ended := decide (part.BodyLength = -1)
          credited := s.credited + subUpdateCredit now s.t s.file recv }

def MissSession.run (db : Db) : MissSession → List SessionEvent → Option MissSession
  | s, [] => some s
  | s, event :: events => (s.step db event).bind fun s => s.run db events

def MissSession.update (db : Db) (s : MissSession) : MissSession :=
  { s with t := Haarp.update db s.t, credited := s.credited + updateCredit s.t }

/-- So many calls of `Update`. -/
def MissSession.updates (db : Db) : Nat → MissSession → MissSession
  | 0, s => s
  | n + 1, s => (MissSession.updates db n s).update db

/-- The members when a miss begins on the plan `plan` for the list `l`. -/
structure MissSession.Begins (l plan : LintervalPositionByteDisk) (s : MissSession) : Prop where
  starts : s.t.Starts l plan
  hit : s.t.hit = false
  np : s.t.np = 0
  oldfilesended : s.t.oldfilesended = 0
  hasupdate : s.t.hasupdate = false
  log : s.t.log = []
  credited : s.credited = 0

/-- The statistics are right: the row has grown by the number of blocks, and the bytes that were sent
are credited. -/
structure MissSession.CountedOnce (s : MissSession) (blocks : Nat) : Prop where
  np : ∀ (now : Int) (tb : Table), (tb.run now s.t.log s.t.r.key).map Row.np =
    (tb s.t.r.key).map fun row => row.np + (blocks : Int)
  credited : s.credited = s.t.filesended

/-- A save of `SubUpdate` that reaches the row, with the number of missing blocks that are complete in
the list it records. -/
def saveCount (db : Db) (plan : LintervalPositionByteDisk) (s : MissSession) : SessionEvent → List Nat
  | .timer _ _ => []
  | .piece now recv =>
    match saveState s.t s.file recv with
    | some t =>
      if saveDue now t && db t.log t.saveStmt then [completed plan (heartbeat db now t).lranges] else []
    | none => []

/-- The saves of a session that reach the row. -/
def saveCounts (db : Db) (plan : LintervalPositionByteDisk) :
    MissSession → List SessionEvent → List Nat
  | _, [] => []
  | s, event :: events =>
    saveCount db plan s event ++
      match s.step db event with
      | some s => saveCounts db plan s events
      | none => []

/-- The statement of `Update` reaches the row. -/
def Recorded (db : Db) (t : Transfer) : Prop :=
  t.connected = true ∧ db t.log (appendCurrent t).recordStmt = true

instance (db : Db) (t : Transfer) : Decidable (Recorded db t) := inferInstanceAs (Decidable (_ ∧ _))

section Sessions

variable {l plan : LintervalPositionByteDisk} {range_min range_max e : Int} {db : Db}
  {s s' : MissSession}

/-- Where a miss stands: it waits for a piece, or has no missing block to come. -/
inductive MissSession.Stands (plan : LintervalPositionByteDisk) (range_min e : Int)
    (s : MissSession) : Prop
  | waiting (file : Str)
      (waits : Receiving (fun _ => ()) (fun _ => ()) range_min e s.t file)
      (counting : s.t.Counting plan)
  | counted (past : s.ended = true ∨ s.t.brange = [] ∨ s.t.miss2hit = true)
      (np : s.t.np = completed plan s.t.lranges)

theorem MissSession.Stands.np (h : s.Stands plan range_min e) (htiles : TilesBytes range_min plan e) :
    s.t.np = completed plan s.t.lranges := by
  cases h with
  | waiting file waits counting => exact (waits.counts counting).np_eq htiles
  | counted past np => exact np

theorem Transfer.Counts.np {t : Transfer} (h : t.Counts plan range_min e) :
    t.np = missingBefore plan t.brange := by
  cases h with
  | between between hplan np => exact np
  | inside inside follows np => exact np

/-- A call of the miss writer on a piece. -/
theorem MissSession.Stands.piece {file d : Str} {now credited : Int} {part : BodyPart} (hne : d ≠ [])
    (hwaits : Receiving (fun _ => ()) (fun _ => ()) range_min e s.t file)
    (hcounting : s.t.Counting plan) (htiles : TilesBytes range_min plan e)
    (hcall : readMiss db now s.t s.file (some d) = some part) (hmatch : part.t.r.isMatch = true) :
    MissSession.Stands plan range_min e
      { t := part.t, file := part.file, ended := decide (part.BodyLength = -1), credited } := by
  obtain ⟨part', hcall', ht, hvalue⟩ := readMiss_file file hcall
  obtain ⟨part₁, hcall₁, hspec, -⟩ := readMiss_spec db now hwaits hne (carries_unit _ _)
  obtain rfl := Option.some.inj (hcall'.symm.trans hcall₁)
  have hcounts := readMiss_counts hwaits hcounting hne (carries_unit _ _) hcall'
  have hfollows := readMiss_follows hwaits hcounting.keeps hne (carries_unit _ _) hcall'
  rw [← ht] at hmatch ⊢
  rw [← hvalue]
  replace hcounts := hcounts.resolve_left (by simp [hmatch])
  cases hspec with
  | @inside cur rest value isOpen inside faithful sent =>
    have hkeeps : part'.t.Follows plan := by
      rcases hfollows with hnil | hfailed | hfollows
      · rw [inside.brange] at hnil
        cases hnil
      · omega
      · exact hfollows
    refine .waiting part'.file (.opened isOpen inside faithful) ⟨?_, hcounts.np⟩
    rw [Transfer.Keeps, if_pos isOpen]
    exact hkeeps
  | complete value between done faithful sent whole =>
    exact .counted (.inr (.inl done)) (hcounts.np_eq htiles)
  | failed value wellFormed acumulate faithful reason sent covered =>
    exact .counted (.inl (decide_eq_true value)) (hcounts.np_eq htiles)

/-- A call of the miss writer that gets nothing from the server opens the cache file. -/
theorem MissSession.Stands.nothing {file : Str} {now credited : Int} {recv : Option Str}
    {part : BodyPart} (hrecv : recv = none ∨ recv = some [])
    (hwaits : Receiving (fun _ => ()) (fun _ => ()) range_min e s.t file)
    (hcounting : s.t.Counting plan) (hcall : readMiss db now s.t s.file recv = some part) :
    MissSession.Stands plan range_min e
      { t := part.t, file := part.file, ended := decide (part.BodyLength = -1), credited } := by
  obtain ⟨t₁, cur, rest, hopen, hinside, hf, -, hisOpen, hfollows, hnp⟩ :=
    hwaits.open_counting hcounting
  have ht : part.t = t₁ := by
    unfold Haarp.readMiss at hcall
    rw [hopen, Option.bind_some] at hcall
    rcases hrecv with rfl | rfl <;> cases hcall <;> rfl
  rw [ht]
  refine .waiting file (.opened hisOpen hinside hf) ⟨?_, hnp⟩
  rw [Transfer.Keeps, if_pos hisOpen]
  exact hfollows

/-- A call that reads from the cache file, once the miss is turned into a hit. -/
theorem MissSession.Stands.turned {now credited : Int} {part : BodyPart}
    (h : s.Stands plan range_min e) (htiles : TilesBytes range_min plan e)
    (hturned : s.t.miss2hit = true) (hcall : readHit db now s.t s.file = some part) :
    MissSession.Stands plan range_min e
      { t := part.t, file := part.file, ended := decide (part.BodyLength = -1), credited } := by
  have htold := readHit_told hcall
  refine .counted ?_ ?_
  · rcases htold.mode with hvalue | hmode
    · exact .inl (decide_eq_true hvalue)
    · exact .inr (.inr (hmode.trans hturned))
  · rw [(readHit_saves hcall).2.1, htold.lranges]
    exact h.np htiles

/-- What holds between two calls, when the saves `counts` have reached the row. -/
structure MissSession.Inv (plan : LintervalPositionByteDisk) (range_min e : Int) (s s₀ : MissSession)
    (counts : List Nat) : Prop where
  frame : Frame s₀.t s.t
  credited : s.credited = s.t.oldfilesended
  np : npWritten s.t.log = counts.sum
  tells : ∀ st ∈ s.t.log, ∃ l, Tells s₀.t.r.key l st.1
  stands : s.Stands plan range_min e

/-- The statement of a save that reaches the row adds the number of complete blocks. -/
theorem Saves.count {t' : Transfer} {now : Int} {recv : Option Str}
    (h : Saves db now s.t t' (saveState s.t s.file recv)) (hnp : t'.np = completed plan t'.lranges) :
    npWritten t'.log = npWritten s.t.log + (saveCount db plan s (.piece now recv)).sum := by
  unfold saveCount
  dsimp only
  generalize saveState s.t s.file recv = u at h
  cases h with
  | missed oldfilesended np => exact np.trans (Int.add_zero _).symm
  | @reached u state oldfilesended log =>
    subst state
    dsimp only
    rw [(heartbeat_np db now u).1] at hnp
    cases hdue : saveDue now u with
    | false =>
      rw [(heartbeat_waits hdue).2, log]
      exact (Int.add_zero _).symm
    | true =>
      rw [(heartbeat_saves hdue).2, npWritten_concat, saveStmt_npAdded, log, Bool.true_and]
      split
      · rw [hnp, List.sum_singleton]
      · rfl

/-- A call of `ReadBodyPart`, whatever comes. -/
theorem MissSession.Stands.call {now credited : Int} {recv : Option Str} {part : BodyPart}
    (h : s.Stands plan range_min e) (htiles : TilesBytes range_min plan e) (hhit : s.t.hit = false)
    (hended : ¬ s.ended = true) (hne : s.t.brange ≠ [])
    (hcall : readBodyPart db now s.t s.file recv = some part) (hmatch : part.t.r.isMatch = true) :
    MissSession.Stands plan range_min e
      { t := part.t, file := part.file, ended := decide (part.BodyLength = -1), credited } := by
  unfold readBodyPart at hcall
  rw [hhit] at hcall
  split at hcall
  · next hturned => exact h.turned htiles (by simpa using hturned) hcall
  · next hmiss =>
    cases h with
    | counted past np =>
      rcases past with hpast | hnil | hturned
      · exact absurd hpast hended
      · exact absurd hnil hne
      · exact absurd (.inr hturned) hmiss
    | waiting file waits counting =>
      match recv with
      | none => exact .nothing (.inl rfl) waits counting hcall
      | some [] => exact .nothing (.inr rfl) waits counting hcall
      | some (c :: d) => exact .piece (List.cons_ne_nil c d) waits counting htiles hcall hmatch

variable {s₀ : MissSession} {counts : List Nat}

/-- One step. -/
theorem MissSession.Inv.step (h : s.Inv plan range_min e s₀ counts) (htiles : TilesBytes range_min plan e)
    (hhit : s₀.t.hit = false) {event : SessionEvent} (hstep : s.step db event = some s')
    (hmatch : s'.t.r.isMatch = true) :
    s'.Inv plan range_min e s₀ (counts ++ saveCount db plan s event) := by
  obtain ⟨hframe, hcredited, hnp, htells, hstands⟩ := h
  cases event with
  | timer timerecord count_wait =>
    cases hstep
    change MissSession.Inv plan range_min e _ s₀ (counts ++ [])
    rw [List.append_nil]
    refine ⟨{ hframe with }, hcredited, hnp, htells, ?_⟩
    cases hstands with
    | waiting file waits counting =>
      exact .waiting file (waits.timer timerecord count_wait) ⟨counting.keeps, counting.np⟩
    | counted past np => exact .counted past np
  | piece now recv =>
    unfold MissSession.step at hstep
    dsimp only at hstep
    split at hstep
    · cases hstep
    · next hgo =>
      obtain ⟨part, hcall, rfl⟩ := Option.map_eq_some_iff.mp hstep
      rw [not_or, List.isEmpty_iff] at hgo
      have htold := readBodyPart_told hcall
      have hsaves := readBodyPart_saves hcall
      have hframe' : Frame s.t part.t := by
        cases htold with
        | silent frame log => exact frame
        | saved frame log => exact frame
        | released value r hit log was_liberate =>
          rw [r] at hmatch
          cases hmatch
      have hstands' : MissSession.Stands plan range_min e
          { t := part.t, file := part.file, ended := decide (part.BodyLength = -1)
            credited := s.credited + subUpdateCredit now s.t s.file recv } :=
        hstands.call htiles (hframe.hit.trans hhit) hgo.1 hgo.2 hcall hmatch
      refine ⟨hframe.trans hframe', ?_, ?_, ?_, hstands'⟩
      · rw [hsaves.credit, hcredited]
      · rw [List.sum_append, Nat.cast_add, ← hnp]
        exact hsaves.count (hstands'.np htiles)
      · obtain ⟨new, hlog, hnew⟩ := htold.logged
        rw [hlog]
        intro st hst
        rcases List.mem_append.mp hst with hst | hst
        · exact htells st hst
        · rw [hframe.r] at hnew
          exact ⟨_, hnew st hst⟩

/-- A session that has given the entry up does not use it again. -/
theorem MissSession.isMatch_of_step {event : SessionEvent} (hstep : s.step db event = some s')
    (hmatch : s'.t.r.isMatch = true) : s.t.r.isMatch = true := by
  cases event with
  | timer timerecord count_wait =>
    cases hstep
    exact hmatch
  | piece now recv =>
    unfold MissSession.step at hstep
    dsimp only at hstep
    split at hstep
    · cases hstep
    · obtain ⟨part, hcall, rfl⟩ := Option.map_eq_some_iff.mp hstep
      cases readBodyPart_told hcall with
      | silent frame log => exact frame.r ▸ hmatch
      | saved frame log => exact frame.r ▸ hmatch
      | released value r hit log was_liberate =>
        rw [r] at hmatch
        cases hmatch

theorem MissSession.isMatch_of_run {events : List SessionEvent} (hrun : s.run db events = some s')
    (hmatch : s'.t.r.isMatch = true) : s.t.r.isMatch = true := by
  induction events generalizing s with
  | nil =>
    cases hrun
    exact hmatch
  | cons event events ih =>
    obtain ⟨s₁, hstep, hrest⟩ := Option.bind_eq_some_iff.mp hrun
    exact isMatch_of_step hstep (ih hrest)

/-- A run. -/
theorem MissSession.Inv.run (htiles : TilesBytes range_min plan e) (hhit : s₀.t.hit = false)
    {events : List SessionEvent} (h : s.Inv plan range_min e s₀ counts)
    (hrun : s.run db events = some s') (hmatch : s'.t.r.isMatch = true) :
    s'.Inv plan range_min e s₀ (counts ++ saveCounts db plan s events) := by
  induction events generalizing s counts with
  | nil =>
    cases hrun
    rw [saveCounts, List.append_nil]
    exact h
  | cons event events ih =>
    obtain ⟨s₁, hstep, hrest⟩ := Option.bind_eq_some_iff.mp hrun
    have hnext := ih (h.step htiles hhit hstep (isMatch_of_run hrest hmatch)) hrest
    rw [saveCounts, hstep, ← List.append_assoc]
    exact hnext

/-! ## The calls of `Update` -/

/-- What a call of `Update` leaves alone, and that a call has been made. -/
structure Updated (t t' : Transfer) : Prop where
  r : t'.r = t.r
  hit : t'.hit = t.hit
  filesended : t'.filesended = t.filesended
  hasupdate : t'.hasupdate = true

@[simp] theorem liberateEdition_filesended (db : Db) (t : Transfer) :
    (liberateEdition db t).filesended = t.filesended := by
  unfold liberateEdition
  split <;> rfl

@[simp] theorem liberateEdition_hasupdate (db : Db) (t : Transfer) :
    (liberateEdition db t).hasupdate = t.hasupdate := by
  unfold liberateEdition
  split <;> rfl

/-- The append of `Update` leaves alone what is counted. -/
theorem appendCurrent_counts (t : Transfer) :
    (appendCurrent t).hit = t.hit ∧ (appendCurrent t).filesended = t.filesended ∧
      (appendCurrent t).hasupdate = t.hasupdate ∧ (appendCurrent t).connected = t.connected ∧
      (appendCurrent t).np = t.np := by
  unfold appendCurrent
  split
  · split <;> exact ⟨rfl, rfl, rfl, rfl, rfl⟩
  · exact ⟨rfl, rfl, rfl, rfl, rfl⟩

/-- `Update` of a miss is `updateMiss`, and the release of the row. -/
theorem update_eq {t : Transfer} (hmatch : t.r.isMatch = true) (hhit : t.hit = false)
    (hr : (updateMiss db t).r = t.r) :
    ∃ t', t' = liberateEdition db (updateMiss db t) ∧
      update db t = { t' with lranges := [], passed := [], brange := [] } := by
  have hmode : (if t.r.isMatch = true ∧ ¬ t.hit = true then updateMiss db t
      else if t.hit = true then updateHit db t else t) = updateMiss db t :=
    if_pos ⟨hmatch, by simp [hhit]⟩
  refine ⟨_, rfl, ?_⟩
  unfold update
  dsimp only
  rw [hmode, if_pos (by rw [hr]; exact hmatch)]

/-- The state of the first `Update` of a miss before it releases the row. -/
theorem updateMiss_first {t : Transfer} (hnone : t.hasupdate = false) :
    ∃ t₁ : Transfer,
      updateMiss db t = { liberateEdition db { t₁ with hasupdate := true } with acumulate := 0 } ∧
      t₁.r = t.r ∧ t₁.hit = t.hit ∧ t₁.filesended = t.filesended ∧
      npWritten t₁.log = npWritten t.log + if Recorded db t then t.np else 0 := by
  obtain ⟨hhit, hsent, hnone', hconnected, hnp⟩ := appendCurrent_counts t
  unfold updateMiss
  dsimp only
  rw [if_neg (by simp [hnone', hnone])]
  by_cases hconn : t.connected = true
  · rw [if_pos (hconnected.trans hconn)]
    refine ⟨_, rfl, appendCurrent_r t, hhit, hsent, ?_⟩
    refine (npWritten_concat _ _ _).trans ?_
    rw [appendCurrent_log, recordStmt_npAdded, hnp]
    simp only [Recorded, hconn, true_and]
  · rw [if_neg (by rwa [hconnected])]
    refine ⟨appendCurrent t, rfl, appendCurrent_r t, hhit, hsent, ?_⟩
    rw [appendCurrent_log, if_neg fun h => hconn h.1, Int.add_zero]

/-- The first call of `Update` tells the row of `np`. -/
theorem update_first {t : Transfer} (hmatch : t.r.isMatch = true) (hhit : t.hit = false)
    (hnone : t.hasupdate = false) :
    Updated t (update db t) ∧
      npWritten (update db t).log = npWritten t.log + if Recorded db t then t.np else 0 := by
  obtain ⟨t₁, hmiss, hr₁, hhit₁, hsent₁, hlog₁⟩ := @updateMiss_first db t hnone
  have hr : (updateMiss db t).r = t.r := by
    rw [hmiss]
    exact (liberateEdition_r db { t₁ with hasupdate := true }).trans hr₁
  obtain ⟨t₂, ht₂, hupdate⟩ := update_eq hmatch hhit hr
  rw [hupdate, ht₂]
  refine ⟨⟨(liberateEdition_r _ _).trans hr, ?_, ?_, ?_⟩, ?_⟩ <;> rw [hmiss]
  · exact (liberateEdition_hit _ _).trans
      ((liberateEdition_hit db { t₁ with hasupdate := true }).trans hhit₁)
  · exact (liberateEdition_filesended _ _).trans
      ((liberateEdition_filesended db { t₁ with hasupdate := true }).trans hsent₁)
  · exact (liberateEdition_hasupdate _ _).trans
      (liberateEdition_hasupdate db { t₁ with hasupdate := true })
  · exact (npWritten_liberateEdition _ _).trans
      ((npWritten_liberateEdition db { t₁ with hasupdate := true }).trans hlog₁)

/-- A later call of `Update` adds nothing. -/
theorem update_again {t : Transfer} (hmatch : t.r.isMatch = true) (hhit : t.hit = false)
    (hdone : t.hasupdate = true) :
    Updated t (update db t) ∧ npWritten (update db t).log = npWritten t.log := by
  obtain ⟨hhit', hsent', hdone', -, -⟩ := appendCurrent_counts t
  have hmiss : updateMiss db t = { appendCurrent t with acumulate := 0 } := by
    unfold updateMiss
    dsimp only
    rw [if_pos (hdone'.trans hdone)]
  have hr : (updateMiss db t).r = t.r := by
    rw [hmiss]
    exact appendCurrent_r t
  obtain ⟨t₂, ht₂, hupdate⟩ := update_eq hmatch hhit hr
  rw [hupdate, ht₂]
  refine ⟨⟨(liberateEdition_r _ _).trans hr, ?_, ?_, ?_⟩, ?_⟩
  · rw [hmiss]
    exact (liberateEdition_hit _ _).trans hhit'
  · rw [hmiss]
    exact (liberateEdition_filesended _ _).trans hsent'
  · rw [hmiss]
    exact (liberateEdition_hasupdate _ _).trans (hdone'.trans hdone)
  · rw [hmiss]
    exact (npWritten_liberateEdition _ _).trans (by rw [appendCurrent_log])

/-- What the calls of `Update` that end a session add, however many they are. -/
theorem updates_spec (hmatch : s.t.r.isMatch = true) (hhit : s.t.hit = false)
    (hnone : s.t.hasupdate = false) (n : Nat) :
    Updated s.t (s.updates db (n + 1)).t ∧
      npWritten (s.updates db (n + 1)).t.log =
        npWritten s.t.log + (if Recorded db s.t then s.t.np else 0) ∧
      (s.updates db (n + 1)).credited = s.credited + (s.t.filesended - s.t.oldfilesended) := by
  induction n with
  | zero =>
    obtain ⟨hupdated, hnp⟩ := @update_first db s.t hmatch hhit hnone
    refine ⟨hupdated, hnp, ?_⟩
    change s.credited + updateCredit s.t = _
    rw [updateCredit, if_pos ⟨hmatch, by simp [hhit]⟩, if_neg (by simp [hnone])]
  | succ n ih =>
    obtain ⟨⟨hr, hhit', hsent, hdone⟩, hnp, hcredited⟩ := ih
    change Updated s.t (update db (s.updates db (n + 1)).t) ∧
      npWritten (update db (s.updates db (n + 1)).t).log = _ ∧
      (s.updates db (n + 1)).credited + updateCredit (s.updates db (n + 1)).t = _
    generalize s.updates db (n + 1) = s₁ at hr hhit' hsent hdone hnp hcredited ⊢
    have hmatch₁ : s₁.t.r.isMatch = true := by rw [hr]; exact hmatch
    have hhit₁ : s₁.t.hit = false := hhit'.trans hhit
    obtain ⟨hagain, hsame⟩ := @update_again db s₁.t hmatch₁ hhit₁ hdone
    refine ⟨⟨hagain.r.trans hr, hagain.hit.trans hhit', hagain.filesended.trans hsent,
      hagain.hasupdate⟩, hsame.trans hnp, ?_⟩
    rw [updateCredit, if_pos ⟨hmatch₁, by simp [hhit₁]⟩, if_pos hdone, Int.add_zero]
    exact hcredited

/-! ## The whole session -/

/-- The statistics are right when the statements have added the number of blocks. -/
theorem MissSession.countedOnce_iff {blocks : Nat}
    (htells : ∀ st ∈ s.t.log, ∃ l, Tells s.t.r.key l st.1) :
    s.CountedOnce blocks ↔ npWritten s.t.log = blocks ∧ s.credited = s.t.filesended := by
  constructor
  · rintro ⟨hnp, hcredited⟩
    have hrow := hnp 0 fun _ => some (Row.inserted 0)
    rw [run_np htells] at hrow
    have hadd : (Row.inserted 0).np + npWritten s.t.log = (Row.inserted 0).np + blocks :=
      Option.some.inj hrow
    exact ⟨by omega, hcredited⟩
  · rintro ⟨hnp, hcredited⟩
    refine ⟨fun now tb => ?_, hcredited⟩
    rw [run_np htells, hnp]

theorem updates_tells {key : Key} (hr : ∀ n, (s.updates db n).t.r.key = key)
    (htells : ∀ st ∈ s.t.log, ∃ l, Tells key l st.1) (n : Nat) :
    ∀ st ∈ (s.updates db n).t.log, ∃ l, Tells key l st.1 := by
  induction n with
  | zero => exact htells
  | succ n ih =>
    obtain ⟨new, hlog, hnew⟩ := (update_telling db (s.updates db n).t).log
    change ∀ st ∈ (update db (s.updates db n).t).log, _
    rw [hlog]
    intro st hst
    rcases List.mem_append.mp hst with hst | hst
    · exact ih st hst
    · rw [hr n] at hnew
      exact ⟨_, hnew st hst⟩

/-- A miss begins before its plan. -/
theorem MissSession.Begins.inv (hl : WellFormed l) (h₀ : 0 ≤ range_min) (hle : range_min ≤ range_max)
    (h : s.Begins l (getRangeWork l range_min range_max).1) :
    s.Inv (getRangeWork l range_min range_max).1 range_min (planEnd l range_min range_max) s [] := by
  obtain ⟨htiles, hblocks, -⟩ := getRangeWork_spec hl.toStoredList h₀ hle
  obtain ⟨hstarts, hhit, hnp, hold, hnone, hlog, hcredited⟩ := h
  -- a file of the right length, whatever file the calls find
  have hholds : Holds (fun _ => ()) (fun _ => ()) (Placed l)
      (List.replicate (getPointEnd l).toNat 'x') := by
    refine holds_of_length hl fun x hx => ?_
    have := (getPointEnd_spec hl).1 x hx
    rw [List.length_replicate]
    omega
  have hwaits := hstarts.receiving hl hholds h₀ (lt_planEnd hle) htiles hblocks
  refine ⟨.refl _, hcredited.trans hold.symm, ?_, ?_, .waiting _ hwaits ⟨?_, ?_⟩⟩
  · rw [hlog]
    rfl
  · rw [hlog]
    exact fun st hst => absurd hst List.not_mem_nil
  · rw [Transfer.Keeps, if_neg (by simp [hstarts.isOpen]), Transfer.lrangeswork, hstarts.passed,
      List.nil_append, hstarts.brange]
  · have hnone := missingBefore_append [] (getRangeWork l range_min range_max).1
    rw [List.nil_append] at hnone
    rw [hnp, hstarts.brange, hnone]
    rfl

end Sessions

end Haarp
