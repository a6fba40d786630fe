import Haarp.Cache.Coverage
import Haarp.Cache.Turning

/-!
# Saves of a miss

`SubUpdate` saves the list of a miss while it runs, credits the bytes since the last save to the browser
and tells the row the member `np`. The model of the writer leaves `addUserCache` out: `saveState` and
`saveDue` say where `SubUpdate` calls it, and `readBodyPart_saves` what a call does to both numbers.

`np` counts the missing blocks that are complete (`Transfer.Counts.np_eq`).
-/

namespace Haarp

open Base

/-! ## The calls of `addUserCache` -/

/-- The test of `ReadBodyPart` for `SubUpdate`. -/
def saveDue (now : Int) (t : Transfer) : Bool :=
  decide ((now - t.timerecord) * 10 > 12) && decide (t.count_wait + 1 > 15) &&
    decide (t.acumulate ≠ 0) && t.bwrite && !t.brange.isEmpty

/-- The state in which `nextBlock` comes to this test. -/
def nextBlockSave (t : Transfer) : Option Transfer :=
  if t.brange.isEmpty ∨ t.filesended = t.filesizeneto then none else (enterBlock t).map turnToHit

/-- The state in which `writeTail` comes to this test. -/
def writeTailSave (t : Transfer) (file rest : Str) : Option Transfer :=
  let (t, _) := writeBytes t file rest
  let t := { t with acumulate := t.acumulate + rest.length }
  if t.acumulate = t.limit then nextBlockSave (leaveBlock t) else some t

/-- The state in which a call of `ReadBodyPart` comes to this test. -/
def saveState (t : Transfer) (file : Str) (recv : Option Str) : Option Transfer :=
  if t.hit ∨ t.miss2hit then none
  else
    (if t.isOpen then some t else openMiss t).bind fun t =>
      match recv with
      | none => none
      | some [] => none
      | some bodyT =>
        (writeLoop t file bodyT t.brange.tail).bind fun
          | .overflow _ _ => none
          | .fits t file rest => writeTailSave t file rest

/-- The bytes that `SubUpdate` credits in a call of `ReadBodyPart`. -/
def subUpdateCredit (now : Int) (t : Transfer) (file : Str) (recv : Option Str) : Int :=
  match saveState t file recv with
  | some t => if saveDue now t then t.filesended - t.oldfilesended else 0
  | none => 0

/-- The bytes that `Update` credits. -/
def updateCredit (t : Transfer) : Int :=
  if t.r.isMatch ∧ ¬ t.hit then
    if t.hasupdate then 0 else t.filesended - t.oldfilesended
  else if t.hit ∧ ¬ t.hasupdate then t.filesended
  else 0

/-! ## What is counted -/

/-- Every byte of the block is stored. -/
def isStored (l : LintervalPositionByteDisk) (w : IntervalPositionByteDisk) : Bool :=
  (List.range (w.b - w.a + 1).toNat).all fun i =>
    l.any fun x => decide (x.a ≤ w.a + i) && decide (w.a + i ≤ x.b)

/-- The number of missing blocks of a plan that the list `l` holds completely. -/
def completed (plan l : LintervalPositionByteDisk) : Nat :=
  plan.countP fun w => decide (w.position < 0) && isStored l w

/-- What a statement adds to the column `np`. -/
def Stmt.npAdded : Stmt → Int
  | .record _ _ _ _ np => np
  | _ => 0

/-- What the statements of a log that succeeded have added to the column `np`. -/
def npWritten (log : Log) : Int := (log.map fun s => if s.2 then s.1.npAdded else 0).sum

theorem isStored_iff {l : LintervalPositionByteDisk} {w : IntervalPositionByteDisk} :
    isStored l w = true ↔ ∀ n, w.a ≤ n → n ≤ w.b → n ∈ storedBytes l := by
  simp only [isStored, List.all_eq_true, List.mem_range, List.any_eq_true, Bool.and_eq_true,
    decide_eq_true_eq]
  constructor
  · intro h n hna hnb
    obtain ⟨x, hx, hxa, hxb⟩ := h (n - w.a).toNat (by omega)
    exact ⟨x, hx, by omega, by omega⟩
  · intro h i hi
    obtain ⟨x, hx, hxa, hxb⟩ := h (w.a + i) (by omega) (by omega)
    exact ⟨x, hx, hxa, hxb⟩

theorem npWritten_append (log log' : Log) :
    npWritten (log ++ log') = npWritten log + npWritten log' := by
  rw [npWritten, List.map_append, List.sum_append]
  rfl

theorem npWritten_concat (log : Log) (s : Stmt) (ok : Bool) :
    npWritten (log ++ [(s, ok)]) = npWritten log + if ok then s.npAdded else 0 := by
  rw [npWritten_append]
  simp [npWritten]

/-- A statement of a session adds to the column `np` of its row. -/
theorem Tells.apply_np {key : Key} {l : LintervalPositionByteDisk} {s : Stmt} (h : Tells key l s)
    (now : Int) (tb : Table) :
    (s.apply now tb key).map Row.np = (tb key).map fun row => row.np + s.npAdded := by
  cases h <;> simp only [Stmt.apply, Table.modify_self, Option.map_map, Stmt.npAdded, Int.add_zero] <;> rfl

/-- The statements of a session add to the column `np` of its row what they say. -/
theorem run_np {key : Key} {log : Log} (h : ∀ s ∈ log, ∃ l, Tells key l s.1) (now : Int) (tb : Table) :
    (tb.run now log key).map Row.np = (tb key).map fun row => row.np + npWritten log := by
  induction log generalizing tb with
  | nil => simp [Table.run, npWritten]
  | cons s log ih =>
    have hlog := ih fun s' hs' => h s' (List.mem_cons_of_mem s hs')
    obtain ⟨l, hs⟩ := h s List.mem_cons_self
    have hsum : npWritten (s :: log) = (if s.2 then s.1.npAdded else 0) + npWritten log := rfl
    change ((if s.2 then s.1.apply now tb else tb).run now log key).map Row.np = _
    rw [hlog, hsum]
    cases hok : s.2 with
    | false => simp
    | true =>
      have happ := hs.apply_np now tb
      rw [if_pos rfl, if_pos rfl]
      cases htb : tb key with
      | none =>
        rw [htb, Option.map_none, Option.map_eq_none_iff] at happ
        rw [happ]
        rfl
      | some row =>
        rw [htb, Option.map_some] at happ
        obtain ⟨row', hrow', hnp⟩ := Option.map_eq_some_iff.mp happ
        rw [hrow', Option.map_some, Option.map_some, hnp, Int.add_assoc]

/-! ## What a call saves -/

/-- The statement of `SubUpdate` for the save in the state `t`. -/
def Transfer.saveStmt (t : Transfer) : Stmt :=
  match t.brange with
  | blk :: _ => { t with lranges := appendSubNode t.lranges blk t.acumulate }.recordStmt
  | [] => t.recordStmt

@[simp] theorem recordStmt_npAdded (t : Transfer) : t.recordStmt.npAdded = t.np := rfl

@[simp] theorem saveStmt_npAdded (t : Transfer) : t.saveStmt.npAdded = t.np := by
  unfold Transfer.saveStmt
  split <;> rfl

section Saving

variable {db : Db} {now : Int} {t t' : Transfer} {file : Str}

/-- The save moves the mark of the credited bytes, and tells the row of `np`. -/
theorem heartbeat_saves (h : saveDue now t = true) :
    (heartbeat db now t).oldfilesended = t.filesended ∧
      (heartbeat db now t).log = t.log ++ [(t.saveStmt, db t.log t.saveStmt)] := by
  simp only [saveDue, Bool.and_eq_true, decide_eq_true_eq] at h
  obtain ⟨⟨⟨⟨htimer, hwait⟩, hacc⟩, hbwrite⟩, hne⟩ := h
  cases hbrange : t.brange with
  | nil => simp [hbrange] at hne
  | cons blk rest =>
    unfold heartbeat Transfer.saveStmt
    rw [if_pos htimer, hbrange]
    dsimp only
    rw [if_pos ⟨hwait, hacc, hbwrite⟩]
    exact ⟨rfl, rfl⟩

theorem heartbeat_waits (h : saveDue now t = false) :
    (heartbeat db now t).oldfilesended = t.oldfilesended ∧ (heartbeat db now t).log = t.log := by
  unfold heartbeat
  split
  · next htimer =>
    dsimp only
    split
    · next blk rest hbrange =>
      split
      · next hsave =>
        have hdue : saveDue now t = true := by
          simp only [saveDue, Bool.and_eq_true, decide_eq_true_eq]
          exact ⟨⟨⟨⟨htimer, hsave.1⟩, hsave.2.1⟩, hsave.2.2⟩, by rw [hbrange]; rfl⟩
        rw [hdue] at h
        cases h
      · exact ⟨rfl, rfl⟩
    · exact ⟨rfl, rfl⟩
  · exact ⟨rfl, rfl⟩

theorem enterBlock_oldfilesended (h : enterBlock t = some t') :
    t'.oldfilesended = t.oldfilesended := by
  unfold enterBlock at h
  split at h
  · cases h
  · cases h
    rfl

@[simp] theorem leaveBlock_oldfilesended (t : Transfer) :
    (leaveBlock t).oldfilesended = t.oldfilesended := by
  unfold leaveBlock
  split
  · dsimp only
    split <;> rfl
  · rfl

theorem writeLoop_oldfilesended {rest : LintervalPositionByteDisk} {body : Str} {out : WriteLoop}
    (h : writeLoop t file body rest = some out) : out.state.oldfilesended = t.oldfilesended := by
  replace h := writeLoop_from h
  induction h with
  | fits t file body rest => rfl
  | overflow t file d => exact leaveBlock_oldfilesended _
  | @next t t₁ file d w rest out enter loop ih =>
    exact ih.trans ((enterBlock_oldfilesended enter).trans (leaveBlock_oldfilesended _))

@[simp] theorem liberateEdition_oldfilesended (db : Db) (t : Transfer) :
    (liberateEdition db t).oldfilesended = t.oldfilesended := by
  unfold liberateEdition
  split <;> rfl

/-- The release of a row adds nothing to `np`. -/
@[simp] theorem npWritten_liberateEdition (db : Db) (t : Transfer) :
    npWritten (liberateEdition db t).log = npWritten t.log := by
  unfold liberateEdition
  split
  · rfl
  · exact (npWritten_concat _ _ _).trans (by simp [Stmt.npAdded])

/-- What a call of `ReadBodyPart` does to the statistics, by whether it comes to the test for the
save. -/
inductive Saves (db : Db) (now : Int) (t t' : Transfer) : Option Transfer → Prop
  | reached {u : Transfer} (state : t' = heartbeat db now u)
      (oldfilesended : u.oldfilesended = t.oldfilesended) (log : u.log = t.log) :
      Saves db now t t' (some u)
  | missed (oldfilesended : t'.oldfilesended = t.oldfilesended)
      (np : npWritten t'.log = npWritten t.log) : Saves db now t t' none

theorem nextBlock_saves {t₀ : Transfer} (hold : t.oldfilesended = t₀.oldfilesended)
    (hlog : t.log = t₀.log) {bodyT : Str} {part : BodyPart}
    (h : nextBlock db now t file bodyT = some part) :
    Saves db now t₀ part.t (nextBlockSave t) := by
  unfold nextBlock at h
  unfold nextBlockSave
  split at h
  · next hend =>
    cases h
    rw [if_pos (.inl hend.1)]
    exact .missed hold (by rw [hlog])
  · split at h
    · next hfail =>
      cases h
      rw [if_pos hfail]
      exact .missed hold (by rw [hlog])
    · next hgo =>
      obtain ⟨t₁, henter, rfl⟩ := Option.map_eq_some_iff.mp h
      rw [if_neg hgo, henter, Option.map_some]
      exact .reached rfl ((enterBlock_oldfilesended henter).trans hold)
        ((enterBlock_silent henter).log.trans hlog)

theorem writeTail_saves {t₀ : Transfer} (hold : t.oldfilesended = t₀.oldfilesended)
    (hlog : t.log = t₀.log) {rest bodyT : Str} {part : BodyPart}
    (h : writeTail db now t file rest bodyT = some part) :
    Saves db now t₀ part.t (writeTailSave t file rest) := by
  unfold writeTail at h
  unfold writeTailSave
  dsimp only at h ⊢
  split at h
  · next hfull =>
    rw [if_pos hfull]
    refine nextBlock_saves ?_ ?_ h
    · exact (leaveBlock_oldfilesended _).trans hold
    · exact (leaveBlock_silent _).log.trans hlog
  · next hpart =>
    cases h
    rw [if_neg hpart]
    exact .reached rfl hold hlog

/-- A call of the miss writer. -/
theorem readMiss_saves {recv : Option Str} {part : BodyPart} (hmiss : ¬ (t.hit ∨ t.miss2hit))
    (h : readMiss db now t file recv = some part) :
    Saves db now t part.t (saveState t file recv) := by
  unfold saveState
  rw [if_neg hmiss]
  unfold readMiss at h
  obtain ⟨t₁, hopen, h⟩ := Option.bind_eq_some_iff.mp h
  rw [hopen, Option.bind_some]
  obtain ⟨hold, hlog⟩ : t₁.oldfilesended = t.oldfilesended ∧ t₁.log = t.log := by
    split at hopen
    · cases hopen
      exact ⟨rfl, rfl⟩
    · have hlog := (openMiss_silent hopen).log
      unfold openMiss at hopen
      have hold := enterBlock_oldfilesended hopen
      exact ⟨hold, hlog⟩
  match recv with
  | none =>
    cases h
    exact .missed hold (by rw [hlog])
  | some [] =>
    cases h
    exact .missed hold (by rw [hlog])
  | some (c :: d) =>
    obtain ⟨out, hloop, h⟩ := Option.bind_eq_some_iff.mp h
    have hold' := (writeLoop_oldfilesended hloop).trans hold
    have hlog' := (writeLoop_silent hloop).log.trans hlog
    dsimp only
    rw [hloop, Option.bind_some]
    cases out with
    | fits t₂ file₂ rest => exact writeTail_saves hold' hlog' h
    | overflow t₂ file₂ =>
      cases h
      refine .missed ((liberateEdition_oldfilesended _ _).trans hold') ?_
      exact (npWritten_liberateEdition _ _).trans (congrArg npWritten hlog')

/-- A call that reads from the cache file saves nothing, and leaves the counts alone. -/
theorem readHit_saves {part : BodyPart} (h : readHit db now t file = some part) :
    part.t.oldfilesended = t.oldfilesended ∧ part.t.np = t.np ∧
      npWritten part.t.log = npWritten t.log := by
  have hread : ∀ t : Transfer, (readBlock now t file).2.oldfilesended = t.oldfilesended ∧
      (readBlock now t file).2.np = t.np := by
    intro t
    unfold readBlock advance
    dsimp only
    split
    · exact ⟨rfl, rfl⟩
    · split
      · split
        · split <;> exact ⟨rfl, rfl⟩
        · exact ⟨rfl, rfl⟩
      · exact ⟨rfl, rfl⟩
  have hlog : npWritten part.t.log = npWritten t.log := by
    rcases (readHit_told h).log with hlog | hlog
    · rw [hlog]
    · rw [hlog, npWritten_liberateEdition]
  refine (and_assoc.mp ⟨?_, hlog⟩)
  unfold readHit at h
  obtain ⟨t₁, hopen, h⟩ := Option.map_eq_some_iff.mp h
  obtain ⟨hold, hnp⟩ : t₁.oldfilesended = t.oldfilesended ∧ t₁.np = t.np := by
    unfold openHit at hopen
    split at hopen
    · cases hopen
      exact ⟨rfl, rfl⟩
    · split at hopen
      · cases hopen
      · split at hopen <;> cases hopen <;> exact ⟨rfl, rfl⟩
  rw [← hold, ← hnp]
  split at h
  · cases h
    unfold liberateEdition
    split <;> exact ⟨rfl, rfl⟩
  · dsimp only at h
    split at h
    · cases h
      exact hread t₁
    · split at h <;> cases h <;> exact hread t₁

/-- What a call of `ReadBodyPart` does to the statistics. -/
theorem readBodyPart_saves {recv : Option Str} {part : BodyPart}
    (h : readBodyPart db now t file recv = some part) :
    Saves db now t part.t (saveState t file recv) := by
  unfold readBodyPart at h
  split at h
  · next hturned =>
    obtain ⟨hold, -, hlog⟩ := readHit_saves h
    have hstate : saveState t file recv = none := if_pos hturned
    rw [hstate]
    exact .missed hold hlog
  · next hmiss => exact readMiss_saves hmiss h

/-- **The credit of a call** is what it moves the mark of the credited bytes by. -/
theorem Saves.credit {recv : Option Str} (h : Saves db now t t' (saveState t file recv)) :
    t'.oldfilesended = t.oldfilesended + subUpdateCredit now t file recv := by
  unfold subUpdateCredit
  generalize saveState t file recv = u at h
  cases h with
  | missed oldfilesended np => exact oldfilesended.trans (Int.add_zero _).symm
  | @reached u state oldfilesended log =>
    subst state
    dsimp only
    cases hdue : saveDue now u with
    | true =>
      rw [(heartbeat_saves hdue).1, if_pos rfl]
      omega
    | false =>
      rw [(heartbeat_waits hdue).1, if_neg Bool.false_ne_true]
      omega

end Saving

/-! ## Counting blocks -/

/-- The number of missing blocks of a plan that lie in front of its part `rest`. -/
def missingBefore (plan rest : LintervalPositionByteDisk) : Nat :=
  (plan.take (plan.length - rest.length)).countP fun w => decide (w.position < 0)

theorem missingBefore_append (front rest : LintervalPositionByteDisk) :
    missingBefore (front ++ rest) rest = front.countP fun w => decide (w.position < 0) := by
  rw [missingBefore, List.length_append, Nat.add_sub_cancel, List.take_left' rfl]

/-- Only the length of the part matters. -/
theorem missingBefore_congr (plan : LintervalPositionByteDisk) {rest rest' : LintervalPositionByteDisk}
    (h : rest.length = rest'.length) : missingBefore plan rest = missingBefore plan rest' := by
  rw [missingBefore, missingBefore, h]

/-- The plan is cut into blocks that are stored and blocks of which none that is missing is stored. -/
theorem completed_append {front rest l : LintervalPositionByteDisk}
    (hfront : ∀ w ∈ front, isStored l w = true)
    (hrest : ∀ w ∈ rest, w.position < 0 → ¬ isStored l w = true) :
    completed (front ++ rest) l = missingBefore (front ++ rest) rest := by
  have hnone : rest.countP (fun w => decide (w.position < 0) && isStored l w) = 0 := by
    rw [List.countP_eq_zero]
    intro w hw
    rw [Bool.and_eq_true, decide_eq_true_eq, not_and]
    exact hrest w hw
  rw [missingBefore_append, completed, List.countP_append, hnone, Nat.add_zero]
  refine List.countP_congr fun w hw => ?_
  rw [hfront w hw, Bool.and_true]

section Counting

variable {plan : LintervalPositionByteDisk} {range_min e : Int} {db : Db} {now : Int}
  {t t' : Transfer} {file : Str} {cur : IntervalPositionByteDisk} {rest : LintervalPositionByteDisk}

/-- A block that starts at the same byte in two tilings up to `e`. -/
theorem tilesBytes_start {l : LintervalPositionByteDisk} {m n : Int} (h : TilesBytes m l e)
    (h' : TilesBytes n l e) : m = n := by
  cases l with
  | nil => exact h.trans h'.symm
  | cons w l => exact h.1.symm.trans h'.1

/-- Between two blocks, the complete ones are those in front. -/
theorem Between.completed (h : Between range_min e t) (htiles : TilesBytes range_min plan e)
    (hplan : ∃ front, plan = front ++ t.brange) :
    completed plan t.lranges = missingBefore plan t.brange := by
  obtain ⟨front, rfl⟩ := hplan
  obtain ⟨m, hfront, hrest⟩ := htiles.split
  obtain rfl := tilesBytes_start hrest h.tiles
  refine completed_append (fun w hw => ?_) fun w hw hneg hstored => ?_
  · have hb := hfront.bounds hw
    exact isStored_iff.mpr fun n hna hnb => h.covered n (by omega) (by omega)
  · have hle := (hrest.bounds hw).2.1
    have hfree := ((h.todo w hw).resolve_right fun hl => absurd hl.1 (by omega)).2
    exact hfree w.b hle le_rfl (isStored_iff.mp hstored w.b hle le_rfl)

/-- Inside a block, the complete ones are those in front of it. -/
theorem Inside.completed (h : Inside range_min e t cur rest) (htiles : TilesBytes range_min plan e)
    (hfollows : t.Follows plan) : completed plan t.lranges = missingBefore plan t.brange := by
  obtain ⟨front, blk, cur', hplan, hcur, ha, hb, hwrite⟩ := hfollows
  have hlength : t.brange.length = (blk :: t.brange.tail).length := by rw [h.brange]; rfl
  rw [missingBefore_congr plan hlength]
  rw [h.brange] at hplan hcur ⊢
  obtain rfl : cur = cur' := Option.some.inj hcur
  rw [List.tail_cons] at hplan ⊢
  subst hplan
  obtain ⟨m, hfront, hrest⟩ := htiles.split
  have hm := hrest.1
  refine completed_append (fun w hw => ?_) fun w hw hneg hstored => ?_
  · have hb := hfront.bounds hw
    exact isStored_iff.mpr fun n hna hnb => h.covered n (by omega) (by omega)
  · have hle := (hrest.bounds hw).2.1
    have hlast := isStored_iff.mp hstored w.b hle le_rfl
    rcases List.mem_cons.mp hw with rfl | hw
    · have hfresh := h.fresh (hwrite.mpr hneg)
      exact hfresh.free w.b (hb ▸ hfresh.le) hb.ge hlast
    · exact ((h.todo w hw).resolve_right fun hl => absurd hl.1 (by omega)).2 w.b hle le_rfl hlast

/-! ## The member `np` -/

theorem enterBlock_np (h : enterBlock t = some t') :
    t'.np = t.np ∧ t'.brange.length = t.brange.length := by
  unfold enterBlock at h
  split at h
  · cases h
  · next hbrange =>
    cases h
    rw [hbrange]
    exact ⟨rfl, rfl⟩

theorem heartbeat_np (db : Db) (now : Int) (t : Transfer) :
    (heartbeat db now t).np = t.np ∧ (heartbeat db now t).brange.length = t.brange.length := by
  unfold heartbeat
  split
  · dsimp only
    split
    · next hbrange =>
      split <;> rw [hbrange] <;> exact ⟨rfl, rfl⟩
    · exact ⟨rfl, rfl⟩
  · exact ⟨rfl, rfl⟩

/-- A block that is left is counted when it was missing. -/
theorem leaveBlock_np (h : t.Follows plan) (hnp : t.np = missingBefore plan t.brange) :
    (leaveBlock t).np = missingBefore plan (leaveBlock t).brange := by
  obtain ⟨front, blk, cur, hplan, hcur, -, -, hwrite⟩ := h
  obtain ⟨rest, hbrange⟩ := List.head?_eq_some_iff.mp hcur
  have hlength : t.brange.length = (blk :: rest).length := by rw [hbrange]; rfl
  rw [missingBefore_congr plan hlength] at hnp
  rw [leaveBlock_brange, hbrange, List.tail_cons]
  rw [hbrange, List.tail_cons] at hplan
  have hmore : plan = (front ++ [blk]) ++ rest := by rw [hplan, List.append_assoc, List.singleton_append]
  have hcount : (missingBefore plan rest : Int) =
      missingBefore plan (blk :: rest) + if t.bwrite then 1 else 0 := by
    rw [congrArg (missingBefore · rest) hmore, congrArg (missingBefore · (blk :: rest)) hplan,
      missingBefore_append, missingBefore_append, List.countP_append, List.countP_singleton]
    by_cases hneg : blk.position < 0
    · rw [if_pos (decide_eq_true hneg), if_pos (hwrite.mpr hneg)]
      rfl
    · rw [if_neg (by rwa [decide_eq_true_eq]), if_neg (mt hwrite.mp hneg)]
      rfl
  rw [hcount, ← hnp]
  simp only [leaveBlock, hbrange]
  split
  · rfl
  · exact (Int.add_zero _).symm

theorem writeLoop_np {file' body body' : Str} (hfollows : t.Follows plan)
    (hnp : t.np = missingBefore plan t.brange) (hrest : rest = t.brange.tail)
    (h : writeLoop t file body rest = some (.fits t' file' body')) :
    t'.np = missingBefore plan t'.brange := by
  replace h := writeLoop_from h
  generalize hout : WriteLoop.fits t' file' body' = out at h
  induction h with
  | fits t file body rest =>
    cases hout
    exact hnp
  | overflow t file d => cases hout
  | @next t t₁ file d w rest out enter loop ih =>
    obtain ⟨hturned, htail⟩ := hfollows.next enter
    have hwritten : (writeBytes t file d).1.Follows plan := hfollows
    obtain ⟨hsame, hlength⟩ := enterBlock_np enter
    refine ih hturned ?_ ?_ hout
    · change t₁.np = missingBefore plan t₁.brange
      rw [hsame, missingBefore_congr plan hlength]
      exact leaveBlock_np hwritten hnp
    · rw [htail]
      exact congrArg List.tail hrest

/-- Where a call of the miss writer ends: between two blocks, or inside one. -/
inductive Transfer.Counts (plan : LintervalPositionByteDisk) (range_min e : Int) (t : Transfer) : Prop
  | between (between : Between range_min e t) (hplan : ∃ front, plan = front ++ t.brange)
      (np : t.np = missingBefore plan t.brange)
  | inside {cur : IntervalPositionByteDisk} {rest : LintervalPositionByteDisk}
      (inside : Inside range_min e t cur rest) (follows : t.Follows plan)
      (np : t.np = missingBefore plan t.brange)

/-- **The member `np` counts the complete blocks.** -/
theorem Transfer.Counts.np_eq (h : t.Counts plan range_min e) (htiles : TilesBytes range_min plan e) :
    t.np = completed plan t.lranges := by
  cases h with
  | between between hplan np => rw [between.completed htiles hplan, np]
  | inside inside follows np => rw [inside.completed htiles follows, np]

variable {β : Type} {view : Char → β} {R : Int → β} {part : BodyPart}

theorem heartbeat_counts (db : Db) (now : Int) (h : Inside range_min e t cur rest)
    (hf : Holds view R (Laid t.lranges t.bwrite cur t.acumulate) file) (hfollows : t.Follows plan)
    (hnp : t.np = missingBefore plan t.brange) : (heartbeat db now t).Counts plan range_min e := by
  obtain ⟨cur', hinside, -⟩ := heartbeat_inside db now h hf
  obtain ⟨hsame, hlength⟩ := heartbeat_np db now t
  refine .inside hinside (heartbeat_follows db now hfollows h.acumulate.1) ?_
  rw [hsame, missingBefore_congr plan hlength]
  exact hnp

theorem nextBlock_counts {bodyT : Str} (h : Between range_min e t)
    (hf : Holds view R (Placed t.lranges) file) (hplan : ∃ front, plan = front ++ t.brange)
    (hnp : t.np = missingBefore plan t.brange) (hcall : nextBlock db now t file bodyT = some part) :
    part.t.Counts plan range_min e := by
  unfold nextBlock at hcall
  split at hcall
  · cases hcall
    exact .between h hplan hnp
  · split at hcall
    · cases hcall
      exact .between { h with } hplan hnp
    · next hgo =>
      obtain ⟨t₁, henter, rfl⟩ := Option.map_eq_some_iff.mp hcall
      have hne : t.brange ≠ [] := fun hnil => hgo (.inl (List.isEmpty_iff.mpr hnil))
      obtain ⟨t₂, cur, rest, henter', hinside, -, hzero, hl, -, -⟩ := enterBlock_inside h hne
      obtain rfl := Option.some.inj (henter.symm.trans henter')
      obtain ⟨front, hfront⟩ := hplan
      have hentered : t₁.Follows plan := enterBlock_follows hfront henter
      have hfollows : (turnToHit t₁).Follows plan := hentered
      obtain ⟨hsame, hlength⟩ := enterBlock_np henter
      have hlaid : Holds view R (Laid (turnToHit t₁).lranges (turnToHit t₁).bwrite cur
          (turnToHit t₁).acumulate) file := by
        change Holds view R (Laid t₁.lranges t₁.bwrite cur t₁.acumulate) file
        rw [hzero, hl]
        exact hf.mono fun n p hn => laid_zero.mp hn
      refine heartbeat_counts db now (turnToHit_inside hinside) hlaid hfollows ?_
      change t₁.np = missingBefore plan t₁.brange
      rw [hsame, missingBefore_congr plan hlength]
      exact hnp

theorem writeTail_counts {body d : Str} (h : Inside range_min e t cur rest)
    (hbody : Carries view R (range_min + t.filesended) body)
    (hfit : t.acumulate + body.length ≤ t.limit)
    (hf : Holds view R (Laid t.lranges t.bwrite cur t.acumulate) file) (hfollows : t.Follows plan)
    (hnp : t.np = missingBefore plan t.brange) (hcall : writeTail db now t file body d = some part) :
    part.t.Counts plan range_min e := by
  have hf' := faithful_writeBytes h hbody hfit hf
  have hacc := h.acumulate
  have hnext := h.next
  have hoff := h.offset
  unfold writeTail writeBytes at hcall
  dsimp only at hcall
  generalize writeAt '\x00' file t.offset.toNat body = file' at hf' hcall
  split at hcall
  · next hfull =>
    have hlen : (body.length : Int) = t.limit - t.acumulate := by omega
    rw [hfull] at hf'
    obtain ⟨hbetween, hplaced, -⟩ :=
      leaveBlock_between h hf' (t.offset + (t.limit - t.acumulate))
        (t.acumulate + (t.limit - t.acumulate))
    rw [hlen] at hcall
    have hfollows' : Transfer.Follows plan { t with
        offset := t.offset + (t.limit - t.acumulate)
        acumulate := t.acumulate + (t.limit - t.acumulate)
        filesended := t.filesended + (t.limit - t.acumulate) } := hfollows
    exact nextBlock_counts hbetween hplaced hfollows'.leave (leaveBlock_np hfollows' hnp) hcall
  · next hpart =>
    cases hcall
    have hinside : Inside range_min e { t with
        offset := t.offset + body.length, filesended := t.filesended + body.length
        acumulate := t.acumulate + body.length } cur rest :=
      { h with
        acumulate := ⟨by simp only; omega, by simp only; omega⟩
        next := by simp only; omega
        offset := by simp only; omega }
    exact heartbeat_counts db now hinside hf' hfollows hnp

/-- A miss before a piece: it follows the plan, and has counted the missing blocks in front. -/
structure Transfer.Counting (plan : LintervalPositionByteDisk) (t : Transfer) : Prop where
  keeps : t.Keeps plan
  np : t.np = missingBefore plan t.brange

/-- A miss that waits for a piece stands in front of the plan or inside a block of it. -/
theorem Receiving.counts (h : Receiving view R range_min e t file) (hcounting : t.Counting plan) :
    t.Counts plan range_min e := by
  obtain ⟨hkeeps, hnp⟩ := hcounting
  unfold Transfer.Keeps at hkeeps
  cases h with
  | unopened isOpen passed between more faithful =>
    rw [if_neg (by rw [isOpen]; exact Bool.false_ne_true), Transfer.lrangeswork, passed,
      List.nil_append] at hkeeps
    exact .between between ⟨[], by rw [hkeeps, List.nil_append]⟩ hnp
  | opened isOpen inside faithful =>
    rw [if_pos isOpen] at hkeeps
    exact .inside inside hkeeps hnp

/-- What a call finds after the cache file is opened. -/
theorem Receiving.open_counting (h : Receiving view R range_min e t file)
    (hcounting : t.Counting plan) :
    ∃ t₁ cur rest, (if t.isOpen then some t else openMiss t) = some t₁ ∧
      Inside range_min e t₁ cur rest ∧ Holds view R (Laid t₁.lranges t₁.bwrite cur t₁.acumulate) file ∧
      t₁.filesended = t.filesended ∧ t₁.isOpen = true ∧ t₁.Follows plan ∧
      t₁.np = missingBefore plan t₁.brange := by
  obtain ⟨t₁, cur, rest, hopen, hinside, hf, -, hsent, hisOpen⟩ := h.open_inside
  obtain ⟨hkeeps, hnp⟩ := hcounting
  unfold Transfer.Keeps at hkeeps
  refine ⟨t₁, cur, rest, hopen, hinside, hf, hsent, hisOpen, ?_⟩
  split at hopen
  · next hopened =>
    cases hopen
    rw [if_pos hopened] at hkeeps
    exact ⟨hkeeps, hnp⟩
  · next hclosed =>
    rw [if_neg hclosed] at hkeeps
    have hplan : plan = [] ++ t.lrangeswork := by rw [List.nil_append, hkeeps]
    have hbrange : t.lrangeswork = t.brange := by
      cases h with
      | unopened isOpen passed between more faithful =>
        rw [Transfer.lrangeswork, passed, List.nil_append]
      | opened isOpen inside faithful => exact absurd isOpen hclosed
    unfold openMiss at hopen
    obtain ⟨hsame, hlength⟩ := enterBlock_np hopen
    refine ⟨@enterBlock_follows plan _ t₁ [] hplan hopen, ?_⟩
    rw [hsame, missingBefore_congr plan hlength]
    change t.np = missingBefore plan t.lrangeswork
    rw [hbrange]
    exact hnp

/-- **What a call of the miss writer counts**, unless it gives the entry up. -/
theorem readMiss_counts (h : Receiving view R range_min e t file) (hcounting : t.Counting plan)
    {d : Str} (hne : d ≠ []) (hd : Carries view R (range_min + t.filesended) d)
    (hcall : readMiss db now t file (some d) = some part) :
    part.t.r.isMatch = false ∨ part.t.Counts plan range_min e := by
  obtain ⟨t₁, cur, rest, hopen, hinside, hf, hsent, -, hfollows, hnp⟩ := h.open_counting hcounting
  obtain ⟨c, cs, rfl⟩ := List.exists_cons_of_ne_nil hne
  obtain ⟨out, hout, hspec⟩ := writeLoop_spec rest t₁ cur file (c :: cs) hinside (hsent ▸ hd) hf
  simp only [readMiss, hopen, Option.bind_some, hinside.brange, List.tail_cons, hout] at hcall
  cases hspec with
  | fits inside faithful carries fit count grows sent isOpen =>
    have hrest : rest = t₁.brange.tail := by rw [hinside.brange, List.tail_cons]
    exact .inr (writeTail_counts inside carries fit faithful (writeLoop_follows hfollows hrest hout)
      (writeLoop_np hfollows hnp hrest hout) hcall)
  | overflow between done faithful count grows sent =>
    cases hcall
    exact .inl (congrArg Resposta.isMatch (liberateEdition_r _ _))

end Counting

end Haarp
