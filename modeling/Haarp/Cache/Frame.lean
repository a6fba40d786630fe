import Haarp.Cache.Writer

/-!
# What a call leaves alone

Whatever state it starts from, a call of `ReadBodyPart` keeps the request and the marks of the
session (`Frame`) and tells the database nothing, or it saves the list (`SubUpdate`); or it gives the
entry up, releases the row and returns -1. `Told` has these cases; `update_miss`, `update_hit` and
`update_released` say what `Update` tells.
-/

namespace Haarp

/-- What the functions of a call leave alone: the request, and the marks of the session. -/
structure Frame (t t' : Transfer) : Prop where
  r : t'.r = t.r
  hit : t'.hit = t.hit
  filesizeneto : t'.filesizeneto = t.filesizeneto
  hasupdate : t'.hasupdate = t.hasupdate
  connected : t'.connected = t.connected
  exists_transaction : t'.exists_transaction_editing_file = t.exists_transaction_editing_file
  was_liberate : t'.was_liberate = t.was_liberate

/-- Nothing is told to the database, and no read of the file fails. -/
structure Silent (t t' : Transfer) : Prop extends Frame t t' where
  log : t'.log = t.log
  failed : t.failed = false → t'.failed = false

/-- What a call does to the marks and tells the database. -/
inductive Told (db : Db) (t : Transfer) (part : BodyPart) : Prop
  | silent (frame : Frame t part.t) (log : part.t.log = t.log)
  | saved (frame : Frame t part.t)
      (log : part.t.log = t.log ++ [(part.t.recordStmt, db t.log part.t.recordStmt)])
  | released (value : part.BodyLength = -1) (r : part.t.r = { t.r with isMatch := false })
      (hit : part.t.hit = false) (log : part.t.log = (liberateEdition db t).log)
      (was_liberate : part.t.was_liberate = (liberateEdition db t).was_liberate)

theorem Frame.refl (t : Transfer) : Frame t t := ⟨rfl, rfl, rfl, rfl, rfl, rfl, rfl⟩

section Calls

variable {db : Db} {now : Int} {t t' t'' : Transfer} {file : Str}

theorem Frame.trans (h : Frame t t') (h' : Frame t' t'') : Frame t t'' :=
  ⟨h'.r.trans h.r, h'.hit.trans h.hit, h'.filesizeneto.trans h.filesizeneto,
    h'.hasupdate.trans h.hasupdate, h'.connected.trans h.connected,
    h'.exists_transaction.trans h.exists_transaction, h'.was_liberate.trans h.was_liberate⟩

theorem Silent.refl (t : Transfer) : Silent t t := ⟨.refl t, rfl, id⟩

theorem Silent.trans (h : Silent t t') (h' : Silent t' t'') : Silent t t'' :=
  ⟨h.toFrame.trans h'.toFrame, h'.log.trans h.log, fun hf => h'.failed (h.failed hf)⟩

theorem Told.frame {part : BodyPart} (h : Told db t part) (hvalue : part.BodyLength ≠ -1) :
    Frame t part.t := by
  cases h with
  | silent frame log => exact frame
  | saved frame log => exact frame
  | released value r hit log was_liberate => exact absurd value hvalue

/-! ## The miss -/

theorem enterBlock_silent (h : enterBlock t = some t') : Silent t t' := by
  unfold enterBlock at h
  split at h
  · cases h
  · cases h
    exact ⟨⟨rfl, rfl, rfl, rfl, rfl, rfl, rfl⟩, rfl, id⟩

theorem openMiss_silent (h : openMiss t = some t') : Silent t t' := by
  have hs := enterBlock_silent h
  exact { hs with failed := fun _ => hs.failed rfl }

theorem leaveBlock_silent (t : Transfer) : Silent t (leaveBlock t) := by
  unfold leaveBlock
  split
  · dsimp only
    split <;> exact ⟨⟨rfl, rfl, rfl, rfl, rfl, rfl, rfl⟩, rfl, id⟩
  · exact .refl t

theorem turnToHit_silent (t : Transfer) : Silent t (turnToHit t) :=
  ⟨⟨rfl, rfl, rfl, rfl, rfl, rfl, rfl⟩, rfl, id⟩

theorem writeBytes_silent (t : Transfer) (file d : Str) : Silent t (writeBytes t file d).1 :=
  ⟨⟨rfl, rfl, rfl, rfl, rfl, rfl, rfl⟩, rfl, id⟩

/-- The state in which the loop over the blocks ends. -/
def WriteLoop.state : WriteLoop → Transfer
  | .fits t _ _ => t
  | .overflow t _ => t

/-- How the loop over the blocks goes from `t` with the blocks `rest` behind the current one: what is
left of the piece fits, or the last block is full, or the loop goes on in the next block. -/
inductive WriteLoop.From : Transfer → LintervalPositionByteDisk → WriteLoop → Prop
  | fits (t : Transfer) (file body : Str) (rest : LintervalPositionByteDisk) :
      From t rest (.fits t file body)
  | overflow (t : Transfer) (file d : Str) :
      From t [] (.overflow (leaveBlock (writeBytes t file d).1) (writeBytes t file d).2)
  | next {t t₁ : Transfer} (file : Str) {d : Str} {w : IntervalPositionByteDisk}
      {rest : LintervalPositionByteDisk} {out : WriteLoop}
      (enter : enterBlock (leaveBlock (writeBytes t file d).1) = some t₁)
      (loop : From (turnToHit t₁) rest out) : From t (w :: rest) out

theorem writeLoop_from {rest : LintervalPositionByteDisk} {body : Str} {out : WriteLoop}
    (h : writeLoop t file body rest = some out) : WriteLoop.From t rest out := by
  induction rest generalizing t file body with
  | nil =>
    rw [writeLoop] at h
    split at h
    · split at h
      · cases h
      · cases h
        exact .overflow t file _
    · cases h
      exact .fits t file body []
  | cons w rest ih =>
    rw [writeLoop] at h
    split at h
    · split at h
      · cases h
      · obtain ⟨t₁, henter, hloop⟩ := Option.bind_eq_some_iff.mp h
        exact .next file henter (ih hloop)
    · cases h
      exact .fits t file body (w :: rest)

theorem WriteLoop.From.silent {rest : LintervalPositionByteDisk} {out : WriteLoop}
    (h : WriteLoop.From t rest out) : Silent t out.state := by
  induction h with
  | fits t file body rest => exact .refl t
  | overflow t file d => exact (writeBytes_silent t file d).trans (leaveBlock_silent _)
  | @next t t₁ file d w rest out enter loop ih =>
    have hleft := (writeBytes_silent t file d).trans (leaveBlock_silent _)
    exact ((hleft.trans (enterBlock_silent enter)).trans (turnToHit_silent t₁)).trans ih

theorem writeLoop_silent {rest : LintervalPositionByteDisk} {body : Str} {out : WriteLoop}
    (h : writeLoop t file body rest = some out) : Silent t out.state :=
  (writeLoop_from h).silent

/-- The save of the block so far tells of the list as it is afterwards. -/
theorem heartbeat_told (db : Db) (now : Int) (t : Transfer) :
    let t' := heartbeat db now t
    Frame t t' ∧ (t.failed = false → t'.failed = false) ∧
      (t'.log = t.log ∨ t'.log = t.log ++ [(t'.recordStmt, db t.log t'.recordStmt)]) := by
  unfold heartbeat
  split
  · dsimp only
    split
    · split <;> exact ⟨⟨rfl, rfl, rfl, rfl, rfl, rfl, rfl⟩, id, by first | exact .inr rfl | exact .inl rfl⟩
    · exact ⟨⟨rfl, rfl, rfl, rfl, rfl, rfl, rfl⟩, id, .inl rfl⟩
  · exact ⟨.refl t, id, .inl rfl⟩

/-- A call that ends with the save. -/
theorem told_of_heartbeat (hs : Silent t t') {part : BodyPart} (hpart : part.t = heartbeat db now t') :
    Told db t part ∧ (t.failed = false → part.t.failed = false) := by
  obtain ⟨hframe, hfailed, hlog⟩ := heartbeat_told db now t'
  rw [← hpart, hs.log] at hlog
  rw [← hpart] at hframe hfailed
  refine ⟨?_, fun hf => hfailed (hs.failed hf)⟩
  rcases hlog with hlog | hlog
  · exact .silent (hs.toFrame.trans hframe) hlog
  · exact .saved (hs.toFrame.trans hframe) hlog

theorem nextBlock_told {bodyT : Str} {part : BodyPart} (hs : Silent t t')
    (h : nextBlock db now t' file bodyT = some part) :
    Told db t part ∧ (t.failed = false → part.t.failed = false) := by
  unfold nextBlock at h
  split at h
  · cases h
    exact ⟨.silent hs.toFrame hs.log, hs.failed⟩
  · split at h
    · cases h
      exact ⟨.silent { hs.toFrame with } hs.log, hs.failed⟩
    · obtain ⟨t₁, henter, rfl⟩ := Option.map_eq_some_iff.mp h
      exact told_of_heartbeat ((hs.trans (enterBlock_silent henter)).trans (turnToHit_silent t₁)) rfl

theorem writeTail_told {rest bodyT : Str} {part : BodyPart} (hs : Silent t t')
    (h : writeTail db now t' file rest bodyT = some part) :
    Told db t part ∧ (t.failed = false → part.t.failed = false) := by
  unfold writeTail at h
  have hs' : Silent t { (writeBytes t' file rest).1 with
      acumulate := (writeBytes t' file rest).1.acumulate + rest.length } :=
    hs.trans ⟨⟨rfl, rfl, rfl, rfl, rfl, rfl, rfl⟩, rfl, id⟩
  dsimp only at h
  split at h
  · exact nextBlock_told (hs'.trans (leaveBlock_silent _)) h
  · cases h
    exact told_of_heartbeat hs' rfl

@[simp] theorem liberateEdition_r (db : Db) (t : Transfer) : (liberateEdition db t).r = t.r := by
  unfold liberateEdition
  split <;> rfl

@[simp] theorem liberateEdition_hit (db : Db) (t : Transfer) :
    (liberateEdition db t).hit = t.hit := by
  unfold liberateEdition
  split <;> rfl

@[simp] theorem liberateEdition_miss2hit (db : Db) (t : Transfer) :
    (liberateEdition db t).miss2hit = t.miss2hit := by
  unfold liberateEdition
  split <;> rfl

@[simp] theorem liberateEdition_failed (db : Db) (t : Transfer) :
    (liberateEdition db t).failed = t.failed := by
  unfold liberateEdition
  split <;> rfl

/-- `liberate_edition` depends on the marks, the request and the log. -/
theorem liberateEdition_congr {db : Db} (hr : t'.r.key = t.r.key) (hw : t'.was_liberate = t.was_liberate)
    (hx : t'.exists_transaction_editing_file = t.exists_transaction_editing_file)
    (hlog : t'.log = t.log) :
    (liberateEdition db t').log = (liberateEdition db t).log ∧
      (liberateEdition db t').was_liberate = (liberateEdition db t).was_liberate := by
  unfold liberateEdition
  rw [hw, hx]
  split
  · exact ⟨hlog, hw⟩
  · simp only [Transfer.set, hr, hlog, and_self]

/-- A call that gives the entry up. -/
theorem givenUp_told {part : BodyPart} (hpart : part.t = liberateEdition db t')
    (hvalue : part.BodyLength = -1) (hr : t'.r = { t.r with isMatch := false }) (hhit : t'.hit = false)
    (hw : t'.was_liberate = t.was_liberate)
    (hx : t'.exists_transaction_editing_file = t.exists_transaction_editing_file)
    (hlog : t'.log = t.log) : Told db t part := by
  have hkey : t'.r.key = t.r.key := by rw [hr]; rfl
  obtain ⟨hlog', hlib⟩ := liberateEdition_congr hkey hw hx hlog
  refine .released hvalue ?_ ?_ ?_ ?_ <;> rw [hpart]
  · exact (liberateEdition_r db t').trans hr
  · exact (liberateEdition_hit db t').trans hhit
  · exact hlog'
  · exact hlib

theorem writeOverflow_told (hs : Silent t t') (file bodyT : Str) :
    Told db t (writeOverflow db t' file bodyT) ∧
      (t.failed = false → (writeOverflow db t' file bodyT).t.failed = false) := by
  have hr : ({ t'.r with isMatch := false } : Resposta) = { t.r with isMatch := false } := by
    rw [hs.r]
  have hpart : (writeOverflow db t' file bodyT).t =
      liberateEdition db { t' with
        r := { t'.r with isMatch := false }, hit := false, isOpen := false } := rfl
  refine ⟨givenUp_told hpart rfl hr rfl hs.was_liberate hs.exists_transaction hs.log, fun hf => ?_⟩
  exact (liberateEdition_failed _ _).trans (hs.failed hf)

/-- **What a call of the miss writer tells.** -/
theorem readMiss_told {recv : Option Str} {part : BodyPart}
    (h : readMiss db now t file recv = some part) :
    Told db t part ∧ (t.failed = false → part.t.failed = false) := by
  unfold readMiss at h
  obtain ⟨t₁, hopen, h⟩ := Option.bind_eq_some_iff.mp h
  have hs : Silent t t₁ := by
    split at hopen
    · cases hopen
      exact .refl t
    · exact openMiss_silent hopen
  split at h
  · cases h
    exact ⟨.silent hs.toFrame hs.log, hs.failed⟩
  · cases h
    exact ⟨.silent hs.toFrame hs.log, hs.failed⟩
  · obtain ⟨out, hloop, h⟩ := Option.bind_eq_some_iff.mp h
    have hs' := hs.trans (writeLoop_silent hloop)
    cases out with
    | fits t₂ file₂ rest => exact writeTail_told hs' h
    | overflow t₂ file₂ =>
      cases h
      exact writeOverflow_told hs' file₂ _

/-! ## The hit -/

/-- What reading from the cache file leaves alone. -/
structure Reads (t t' : Transfer) : Prop extends Frame t t' where
  log : t'.log = t.log
  lranges : t'.lranges = t.lranges
  bwrite : t'.bwrite = t.bwrite ∨ t'.bwrite = false
  miss2hit : t'.miss2hit = t.miss2hit

theorem Reads.trans (h : Reads t t') (h' : Reads t' t'') : Reads t t'' := by
  refine ⟨h.toFrame.trans h'.toFrame, h'.log.trans h.log, h'.lranges.trans h.lranges, ?_,
    h'.miss2hit.trans h.miss2hit⟩
  rcases h'.bwrite with hb | hb
  · exact hb ▸ h.bwrite
  · exact .inr hb

theorem readBlock_reads (now : Int) (t : Transfer) (file : Str) :
    Reads t (readBlock now t file).2 := by
  unfold readBlock advance
  dsimp only
  split
  · exact ⟨⟨rfl, rfl, rfl, rfl, rfl, rfl, rfl⟩, rfl, rfl, .inl rfl, rfl⟩
  · split
    · split
      · split <;> exact ⟨⟨rfl, rfl, rfl, rfl, rfl, rfl, rfl⟩, rfl, rfl, .inl rfl, rfl⟩
      · exact ⟨⟨rfl, rfl, rfl, rfl, rfl, rfl, rfl⟩, rfl, rfl, .inl rfl, rfl⟩
    · exact ⟨⟨rfl, rfl, rfl, rfl, rfl, rfl, rfl⟩, rfl, rfl, .inl rfl, rfl⟩

/-- What a call that reads from the cache file comes to, in whatever state it starts. -/
structure HitTold (db : Db) (t : Transfer) (file : Str) (part : BodyPart) : Prop where
  told : Told db t part
  file : part.file = file
  lranges : part.t.lranges = t.lranges
  bwrite : part.t.bwrite = t.bwrite ∨ part.t.bwrite = false
  mode : part.BodyLength = -1 ∨ part.t.miss2hit = t.miss2hit
  log : part.t.log = t.log ∨ part.t.log = (liberateEdition db t).log

@[simp] theorem liberateEdition_lranges (db : Db) (t : Transfer) :
    (liberateEdition db t).lranges = t.lranges := by
  unfold liberateEdition
  split <;> rfl

@[simp] theorem liberateEdition_bwrite (db : Db) (t : Transfer) :
    (liberateEdition db t).bwrite = t.bwrite := by
  unfold liberateEdition
  split <;> rfl

/-- The file is open, or it is closed again because the first block of the plan is not stored. -/
inductive Opened (t t' : Transfer) : Prop
  | reads (isOpen : t'.isOpen = true) (reads : Reads t t')
  | refused (isOpen : t'.isOpen = false) (r : t'.r = { t.r with isMatch := false })
      (hit : t'.hit = false) (was_liberate : t'.was_liberate = t.was_liberate)
      (exists_transaction :
        t'.exists_transaction_editing_file = t.exists_transaction_editing_file)
      (log : t'.log = t.log) (lranges : t'.lranges = t.lranges) (bwrite : t'.bwrite = false)

theorem openHit_opened (h : openHit now t = some t') : Opened t t' := by
  unfold openHit at h
  split at h
  · cases h
  · split at h <;> cases h
    · exact .refused rfl rfl rfl rfl rfl rfl rfl rfl
    · exact .reads rfl ⟨⟨rfl, rfl, rfl, rfl, rfl, rfl, rfl⟩, rfl, rfl, .inr rfl, rfl⟩

theorem readHit_told {part : BodyPart} (h : readHit db now t file = some part) :
    HitTold db t file part := by
  unfold readHit at h
  obtain ⟨t₁, hopen, h⟩ := Option.map_eq_some_iff.mp h
  have h₁ : Opened t t₁ := by
    split at hopen
    · next hisOpen =>
      cases hopen
      exact .reads hisOpen ⟨.refl t, rfl, rfl, .inl rfl, rfl⟩
    · exact openHit_opened hopen
  cases h₁ with
  | reads isOpen reads =>
    rw [if_neg (by simp [isOpen])] at h
    obtain ⟨hframe, hlog, hl, hbw, hm⟩ := reads.trans (readBlock_reads now t₁ file)
    dsimp only at h
    split at h
    · rw [← h]
      exact ⟨.silent { hframe with } hlog, rfl, hl, hbw, .inr hm, .inl hlog⟩
    · split at h <;> rw [← h] <;>
        exact ⟨.silent { hframe with } hlog, rfl, hl, hbw, .inr hm, .inl hlog⟩
  | refused isOpen r hit was_liberate exists_transaction log lranges bwrite =>
    rw [if_pos (by simp [isOpen])] at h
    rw [← h]
    have hkey : t₁.r.key = t.r.key := by rw [r]; rfl
    exact ⟨givenUp_told rfl rfl r hit was_liberate exists_transaction log, rfl,
      (liberateEdition_lranges _ _).trans lranges,
      .inr ((liberateEdition_bwrite _ _).trans bwrite), .inl rfl,
      .inr (liberateEdition_congr hkey was_liberate exists_transaction log).1⟩

/-- **What a call of `ReadBodyPart` tells**, in whatever state it starts. -/
theorem readBodyPart_told {recv : Option Str} {part : BodyPart}
    (h : readBodyPart db now t file recv = some part) : Told db t part := by
  unfold readBodyPart at h
  split at h
  · exact (readHit_told h).told
  · exact (readMiss_told h).1

end Calls

/-! ## A session that holds the row -/

/-- The session uses the entry, and has not told the database so far that it is over. -/
structure Holding (t : Transfer) : Prop where
  isMatch : t.r.isMatch = true
  exists_transaction : t.exists_transaction_editing_file = false
  was_liberate : t.was_liberate = false
  hasupdate : t.hasupdate = false
  connected : t.connected = true

section Holds

variable {t t' : Transfer}

theorem Holding.frame (h : Holding t) (hf : Frame t t') : Holding t' :=
  ⟨by rw [hf.r]; exact h.isMatch, hf.exists_transaction.trans h.exists_transaction,
    hf.was_liberate.trans h.was_liberate, hf.hasupdate.trans h.hasupdate,
    hf.connected.trans h.connected⟩

theorem liberateEdition_log (hw : t.was_liberate = false)
    (hx : t.exists_transaction_editing_file = false) :
    (liberateEdition succeeds t).log = t.log ++ [(.liberate t.r.key, true)] ∧
      (liberateEdition succeeds t).was_liberate = true := by
  unfold liberateEdition
  rw [if_neg (by simp [hw, hx])]
  exact ⟨rfl, rfl⟩

theorem liberateEdition_done (db : Db) (hw : t.was_liberate = true) : liberateEdition db t = t := by
  unfold liberateEdition
  rw [if_pos (.inl hw)]

@[simp] theorem appendCurrent_r (t : Transfer) : (appendCurrent t).r = t.r := by
  unfold appendCurrent
  split
  · split <;> rfl
  · rfl

@[simp] theorem appendCurrent_log (t : Transfer) : (appendCurrent t).log = t.log := by
  unfold appendCurrent
  split
  · split <;> rfl
  · rfl

/-- What a call of a session that holds the row comes to: it tells nothing, it saves its list, or it
gives the row up. -/
inductive HoldingTold (t : Transfer) (part : BodyPart) : Prop
  | silent (holding : Holding part.t) (frame : Frame t part.t) (log : part.t.log = t.log)
  | saved (holding : Holding part.t) (frame : Frame t part.t)
      (log : part.t.log = t.log ++ [(part.t.recordStmt, true)])
  | released (value : part.BodyLength = -1) (isMatch : part.t.r.isMatch = false)
      (hit : part.t.hit = false) (was_liberate : part.t.was_liberate = true)
      (log : part.t.log = t.log ++ [(.liberate t.r.key, true)])

theorem Holding.told {part : BodyPart} (h : Holding t) (htold : Told succeeds t part) :
    HoldingTold t part := by
  cases htold with
  | silent frame log => exact .silent (h.frame frame) frame log
  | saved frame log => exact .saved (h.frame frame) frame log
  | released value r hit log was_liberate =>
    obtain ⟨hlog, hlib⟩ := liberateEdition_log h.was_liberate h.exists_transaction
    exact .released value (by rw [r]) hit (was_liberate.trans hlib) (log.trans hlog)

/-- `Update` of a miss records its list and releases the row. -/
theorem update_miss (h : Holding t) (hhit : t.hit = false) :
    (update succeeds t).log =
      t.log ++ [((appendCurrent t).recordStmt, true), (.liberate t.r.key, true)] := by
  have hcur : Holding (appendCurrent t) := by
    unfold appendCurrent
    split
    · split <;> exact { h with }
    · exact h
  have hmiss : (updateMiss succeeds t).r = t.r ∧ (updateMiss succeeds t).was_liberate = true ∧
      (updateMiss succeeds t).log =
        t.log ++ [((appendCurrent t).recordStmt, true), (.liberate t.r.key, true)] := by
    unfold updateMiss
    dsimp only
    rw [if_neg (by simp [hcur.hasupdate]), if_pos hcur.connected]
    obtain ⟨hlog, hlib⟩ := liberateEdition_log
      (t := { ((appendCurrent t).set succeeds (appendCurrent t).recordStmt).2 with hasupdate := true })
      hcur.was_liberate hcur.exists_transaction
    refine ⟨(liberateEdition_r _ _).trans (appendCurrent_r t), hlib, hlog.trans ?_⟩
    simp only [Transfer.set, appendCurrent_r, appendCurrent_log, succeeds, List.append_assoc,
      List.cons_append, List.nil_append]
  have hmode : (if t.r.isMatch = true ∧ ¬ t.hit = true then updateMiss succeeds t
      else if t.hit = true then updateHit succeeds t else t) = updateMiss succeeds t :=
    if_pos ⟨h.isMatch, by simp [hhit]⟩
  unfold update
  dsimp only
  rw [hmode, if_pos (by rw [hmiss.1]; exact h.isMatch), liberateEdition_done succeeds hmiss.2.1]
  exact hmiss.2.2

/-- `Update` of a hit counts it and releases the row. -/
theorem update_hit (h : Holding t) (hhit : t.hit = true) :
    ∃ new, (update succeeds t).log = t.log ++ new ++ [(.liberate t.r.key, true)] ∧
      ∀ s ∈ new, ∃ bytes, s.1 = .requested t.r.key bytes := by
  have hmode : (if t.r.isMatch = true ∧ ¬ t.hit = true then updateMiss succeeds t
      else if t.hit = true then updateHit succeeds t else t) = updateHit succeeds t := by
    rw [if_neg (by simp [hhit]), if_pos hhit]
  obtain ⟨new, hlog, hnew, hr, hw, hx⟩ : ∃ new, (updateHit succeeds t).log = t.log ++ new ∧
      (∀ s ∈ new, ∃ bytes, s.1 = .requested t.r.key bytes) ∧ (updateHit succeeds t).r = t.r ∧
      (updateHit succeeds t).was_liberate = t.was_liberate ∧
      (updateHit succeeds t).exists_transaction_editing_file = t.exists_transaction_editing_file := by
    unfold updateHit
    split
    · rw [if_pos h.connected]
      refine ⟨[(.requested t.r.key t.filesended, true)], rfl, fun s hs => ⟨t.filesended, ?_⟩, rfl,
        rfl, rfl⟩
      rw [List.mem_singleton.mp hs]
    · exact ⟨[], (List.append_nil _).symm, by simp, rfl, rfl, rfl⟩
  refine ⟨new, ?_, hnew⟩
  unfold update
  dsimp only
  rw [hmode, if_pos (by rw [hr]; exact h.isMatch)]
  rw [(liberateEdition_log (hw.trans h.was_liberate) (hx.trans h.exists_transaction)).1, hlog, hr]

/-- `Update` of a session that gave the entry up tells nothing. -/
theorem update_released (db : Db) (hmatch : t.r.isMatch = false) (hhit : t.hit = false) :
    (update db t).log = t.log := by
  unfold update
  simp [hmatch, hhit]

end Holds

end Haarp
