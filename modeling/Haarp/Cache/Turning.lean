import Haarp.Cache.Session

/-!
# When a miss becomes a hit

`ReadBodyPart` turns a miss into a hit (`miss2hit`) when it enters a stored block and only stored ones
are left of the plan. A miss that is not turned still has a block to store (`Owes`), so behind its plan
the cache file is written at its end only (`Ahead`).
-/

namespace Haarp

open Base

/-- A miss that is not turned stores the current block, or one behind it. -/
def Transfer.Owes (t : Transfer) : Prop :=
  t.miss2hit = true ∨ t.bwrite = true ∨ ∃ w ∈ t.brange.tail, w.position < 0

/-- A miss before a piece: a block of its plan, or of what is left of it, is to be stored. -/
def Transfer.Lacks (t : Transfer) : Prop :=
  if t.isOpen then t.Owes else ∃ w ∈ t.lrangeswork, w.position < 0

/-- A miss behind a piece: it has a block to store, or it has come to the end of the cache file. -/
def Transfer.Ahead (t : Transfer) : Prop :=
  (t.brange ≠ [] ∧ t.Owes) ∨
    (t.brange = [] ∧ t.isOpen = true ∧ ((t.miss2hit = true ∧ t.bwrite = false) ∨
      (t.miss2hit = false ∧ getPointEnd t.lranges ≤ t.offset)))

section Turning

variable {db : Db} {now : Int} {t t' : Transfer} {file : Str}

theorem enterBlock_owes (h : enterBlock t = some t') :
    t'.brange.tail = t.brange.tail ∧ t'.brange ≠ [] ∧
      ((∃ w ∈ t.brange, w.position < 0) → t'.Owes) := by
  unfold enterBlock at h
  split at h
  · cases h
  · next blk rest hbrange =>
    cases h
    rw [hbrange]
    refine ⟨rfl, List.cons_ne_nil _ _, ?_⟩
    rintro ⟨w, hw, hneg⟩
    rcases List.mem_cons.mp hw with rfl | hw
    · exact .inr (.inl (decide_eq_true hneg))
    · exact .inr (.inr ⟨w, hw, hneg⟩)

/-- Behind the test for stored blocks a miss has a block to store. -/
theorem turnToHit_owes (h : enterBlock t = some t') : (turnToHit t').Owes := by
  unfold enterBlock at h
  split at h
  · cases h
  · next blk rest hbrange =>
    cases h
    by_cases hneg : blk.position < 0
    · exact .inr (.inl (decide_eq_true hneg))
    · by_cases hall : ∀ w ∈ rest, 0 ≤ w.position
      · left
        simp only [turnToHit, hneg, decide_false, Bool.false_eq_true, if_false, Bool.not_false,
          Bool.true_and, Bool.or_eq_true, isAllHit, List.all_cons, Bool.and_eq_true, decide_eq_true_eq,
          List.all_eq_true]
        exact .inr ⟨Int.not_lt.mp hneg, hall⟩
      · push Not at hall
        exact .inr (.inr hall)

theorem heartbeat_owes (db : Db) (now : Int) (h : t.Owes) (hne : t.brange ≠ []) :
    (heartbeat db now t).Owes ∧ (heartbeat db now t).brange ≠ [] := by
  obtain ⟨blk, rest, hbrange⟩ := List.exists_cons_of_ne_nil hne
  unfold Transfer.Owes at h
  rw [hbrange] at h
  unfold heartbeat
  split
  · rw [hbrange]
    dsimp only
    split
    · exact ⟨h, List.cons_ne_nil _ _⟩
    · exact ⟨h, List.cons_ne_nil _ _⟩
  · refine ⟨?_, hne⟩
    unfold Transfer.Owes
    rw [hbrange]
    exact h

theorem writeLoop_owes {file' body body' : Str} {rest : LintervalPositionByteDisk} (howes : t.Owes)
    (h : writeLoop t file body rest = some (.fits t' file' body')) : t'.Owes := by
  replace h := writeLoop_from h
  generalize hout : WriteLoop.fits t' file' body' = out at h
  induction h with
  | fits t file body rest =>
    cases hout
    exact howes
  | overflow t file d => cases hout
  | next file enter loop ih => exact ih (turnToHit_owes enter) hout

variable {range_min e : Int} {cur : IntervalPositionByteDisk} {rest : LintervalPositionByteDisk}
  {part : BodyPart}

/-- Behind the last block that is stored, the file is at its end. -/
theorem writeTail_ahead {body d : Str} (h : Inside range_min e t cur rest) (howes : t.Owes)
    (hopen : t.isOpen = true) (hcall : writeTail db now t file body d = some part)
    (hvalue : part.BodyLength ≠ -1) : part.t.Ahead := by
  have hoffset := h.offset
  have hlimit := h.limit
  unfold Transfer.Owes at howes
  rw [h.brange, List.tail_cons] at howes
  unfold writeTail writeBytes at hcall
  dsimp only at hcall
  split at hcall
  · next hfull =>
    generalize hleft : leaveBlock _ = t₁ at hcall
    have hbrange : t₁.brange = rest := by
      rw [← hleft]
      simp only [leaveBlock, h.brange]
      split <;> rfl
    unfold nextBlock at hcall
    split at hcall
    · next hend =>
      cases hcall
      obtain rfl := List.isEmpty_iff.mp (hbrange ▸ hend.1)
      have hisOpen : t₁.isOpen = true := by
        rw [← hleft]
        simp only [leaveBlock, h.brange]
        split <;> exact hopen
      refine .inr ⟨hbrange, hisOpen, ?_⟩
      rw [← hleft]
      rcases howes with hturned | hbwrite | ⟨w, hw, -⟩
      · left
        have hstored := (h.turned hturned).1
        simp only [leaveBlock, h.brange, hstored, Bool.false_eq_true, if_false]
        exact ⟨hturned, trivial⟩
      · right
        simp only [leaveBlock, h.brange, hbwrite, if_true]
        rw [getPointEnd_appendNode h.wellFormed (h.fresh hbwrite)]
        refine ⟨?_, by omega⟩
        by_contra hturned
        rw [(h.turned (by simpa using hturned)).1] at hbwrite
        cases hbwrite
      · cases hw
    · split at hcall
      · cases hcall
        exact absurd rfl hvalue
      · obtain ⟨t₂, henter, rfl⟩ := Option.map_eq_some_iff.mp hcall
        obtain ⟨howes', hne⟩ :=
          heartbeat_owes db now (turnToHit_owes henter) (enterBlock_owes henter).2.1
        exact .inl ⟨hne, howes'⟩
  · cases hcall
    have hne : t.brange ≠ [] := by
      rw [h.brange]
      exact List.cons_ne_nil _ _
    have howes' : Transfer.Owes { t with
        offset := t.offset + body.length, filesended := t.filesended + body.length
        acumulate := t.acumulate + body.length } := by
      unfold Transfer.Owes
      rw [h.brange]
      exact howes
    obtain ⟨howes₁, hne₁⟩ := heartbeat_owes db now howes' hne
    exact .inl ⟨hne₁, howes₁⟩

variable {β : Type} {view : Char → β} {R : Int → β}

/-- A call of the miss writer that does not fail. -/
theorem readMiss_ahead (h : Receiving view R range_min e t file) (hlacks : t.Lacks) {d : Str}
    (hne : d ≠ []) (hd : Carries view R (range_min + t.filesended) d)
    (hcall : readMiss db now t file (some d) = some part) (hvalue : part.BodyLength ≠ -1) :
    part.t.Ahead := by
  obtain ⟨t₁, cur, rest, hopen, hinside, hf, -, hsent, hisOpen⟩ := h.open_inside
  have howes : t₁.Owes := by
    unfold Transfer.Lacks at hlacks
    split at hopen
    · next hopened =>
      cases hopen
      rwa [if_pos hopened] at hlacks
    · next hclosed =>
      rw [if_neg hclosed] at hlacks
      exact (enterBlock_owes hopen).2.2 hlacks
  obtain ⟨c, cs, rfl⟩ := List.exists_cons_of_ne_nil hne
  obtain ⟨out, hout, hspec⟩ := writeLoop_spec rest t₁ cur file (c :: cs) hinside (hsent ▸ hd) hf
  simp only [readMiss, hopen, Option.bind_some, hinside.brange, List.tail_cons, hout] at hcall
  cases hspec with
  | fits inside faithful carries fit count grows sent isOpen =>
    exact writeTail_ahead inside (writeLoop_owes howes hout) (isOpen.trans hisOpen) hcall hvalue
  | overflow between done faithful count grows sent =>
    cases hcall
    exact absurd rfl hvalue

end Turning

/-! ## The blocks that are left -/

/-- From byte `n` on a block of the plan is missing, unless no block of it is left there. -/
def NeedsServer (plan : LintervalPositionByteDisk) (n : Int) : Prop :=
  (∃ w ∈ plan, n ≤ w.b) → ∃ w ∈ plan, w.position < 0 ∧ n ≤ w.b

instance (plan : LintervalPositionByteDisk) (n : Int) : Decidable (NeedsServer plan n) :=
  inferInstanceAs (Decidable ((∃ w ∈ plan, n ≤ w.b) → ∃ w ∈ plan, w.position < 0 ∧ n ≤ w.b))

/-- The current block is one of the plan, of which the start may have been stored and left. -/
def Transfer.Follows (plan : LintervalPositionByteDisk) (t : Transfer) : Prop :=
  ∃ front blk cur, plan = front ++ blk :: t.brange.tail ∧ t.brange.head? = some cur ∧
    blk.a ≤ cur.a ∧ cur.b = blk.b ∧ (t.bwrite = true ↔ blk.position < 0)

/-- A miss before a piece follows the plan. -/
def Transfer.Keeps (plan : LintervalPositionByteDisk) (t : Transfer) : Prop :=
  if t.isOpen then t.Follows plan else t.lrangeswork = plan

section Following

variable {db : Db} {now : Int} {plan : LintervalPositionByteDisk} {t t' : Transfer} {file : Str}

theorem enterBlock_follows {front : LintervalPositionByteDisk} (hplan : plan = front ++ t.brange)
    (h : enterBlock t = some t') : t'.Follows plan := by
  unfold enterBlock at h
  split at h
  · cases h
  · next blk rest hbrange =>
    cases h
    rw [hbrange] at hplan
    refine ⟨front, blk, _, hplan, rfl, ?_, ?_, decide_eq_true_iff⟩
    · split <;> exact le_rfl
    · split <;> rfl

theorem leaveBlock_brange (t : Transfer) : (leaveBlock t).brange = t.brange.tail := by
  unfold leaveBlock
  split
  · next blk rest hbrange =>
    rw [hbrange, List.tail_cons]
    dsimp only
    split <;> rfl
  · next hbrange => rw [hbrange, List.tail_nil]

theorem Transfer.Follows.leave (h : t.Follows plan) : ∃ front, plan = front ++ (leaveBlock t).brange := by
  obtain ⟨front, blk, -, hplan, -⟩ := h
  refine ⟨front ++ [blk], ?_⟩
  rw [leaveBlock_brange, hplan, List.append_assoc, List.singleton_append]

/-- The loop over the blocks goes on in the next block. -/
theorem Transfer.Follows.next {d : Str} (h : t.Follows plan)
    (henter : enterBlock (leaveBlock (writeBytes t file d).1) = some t') :
    (turnToHit t').Follows plan ∧ (turnToHit t').brange.tail = t.brange.tail.tail := by
  have hwritten : (writeBytes t file d).1.Follows plan := h
  obtain ⟨front, hplan⟩ := hwritten.leave
  have hentered : t'.Follows plan := enterBlock_follows hplan henter
  have htail := (enterBlock_owes henter).1
  rw [leaveBlock_brange] at htail
  exact ⟨hentered, htail⟩

theorem heartbeat_follows (db : Db) (now : Int) (h : t.Follows plan) (hacc : 0 ≤ t.acumulate) :
    (heartbeat db now t).Follows plan := by
  obtain ⟨front, blk, cur, hplan, hcur, ha, hb, hwrite⟩ := h
  obtain ⟨rest, hbrange⟩ := List.head?_eq_some_iff.mp hcur
  rw [hbrange, List.tail_cons] at hplan
  unfold heartbeat
  split
  · rw [hbrange]
    dsimp only
    split
    · exact ⟨front, blk, _, hplan, rfl, by dsimp only; omega, hb, hwrite⟩
    · exact ⟨front, blk, cur, hplan, rfl, ha, hb, hwrite⟩
  · refine ⟨front, blk, cur, ?_, hcur, ha, hb, hwrite⟩
    rw [hbrange]
    exact hplan

theorem writeLoop_follows {file' body body' : Str} {rest : LintervalPositionByteDisk}
    (hfollows : t.Follows plan) (hrest : rest = t.brange.tail)
    (h : writeLoop t file body rest = some (.fits t' file' body')) : t'.Follows plan := by
  replace h := writeLoop_from h
  generalize hout : WriteLoop.fits t' file' body' = out at h
  induction h with
  | fits t file body rest =>
    cases hout
    exact hfollows
  | overflow t file d => cases hout
  | @next t t₁ file d w rest out enter loop ih =>
    obtain ⟨hturned, htail⟩ := hfollows.next enter
    refine ih hturned ?_ hout
    rw [htail]
    exact congrArg List.tail hrest

variable {range_min e : Int} {cur : IntervalPositionByteDisk} {rest : LintervalPositionByteDisk}
  {part : BodyPart}

theorem writeTail_follows {body d : Str} (h : t.Follows plan) (hinside : Inside range_min e t cur rest)
    (hcall : writeTail db now t file body d = some part) :
    part.t.brange = [] ∨ part.BodyLength = -1 ∨ part.t.Follows plan := by
  have hacc := hinside.acumulate
  unfold writeTail at hcall
  dsimp only at hcall
  have hwritten : Transfer.Follows plan { (writeBytes t file body).1 with
      acumulate := (writeBytes t file body).1.acumulate + body.length } := h
  split at hcall
  · obtain ⟨front, hplan⟩ := hwritten.leave
    unfold nextBlock at hcall
    split at hcall
    · next hend =>
      cases hcall
      exact .inl (List.isEmpty_iff.mp hend.1)
    · split at hcall
      · cases hcall
        exact .inr (.inl rfl)
      · obtain ⟨t₁, henter, rfl⟩ := Option.map_eq_some_iff.mp hcall
        have hentered : t₁.Follows plan := enterBlock_follows hplan henter
        have hturned : (turnToHit t₁).Follows plan := hentered
        refine .inr (.inr (heartbeat_follows db now hturned ?_))
        have hsame : (turnToHit t₁).acumulate = 0 := by
          unfold enterBlock at henter
          split at henter
          · cases henter
          · cases henter
            simp only [turnToHit, leaveBlock, writeBytes, hinside.brange]
            split <;> rfl
        exact hsame.ge
  · cases hcall
    refine .inr (.inr (heartbeat_follows db now hwritten ?_))
    simp only [writeBytes]
    omega

variable {β : Type} {view : Char → β} {R : Int → β}

/-- A call of the miss writer follows the plan, up to its end. -/
theorem readMiss_follows (h : Receiving view R range_min e t file) (hkeeps : t.Keeps plan) {d : Str}
    (hne : d ≠ []) (hd : Carries view R (range_min + t.filesended) d)
    (hcall : readMiss db now t file (some d) = some part) :
    part.t.brange = [] ∨ part.BodyLength = -1 ∨ part.t.Follows plan := by
  obtain ⟨t₁, cur, rest, hopen, hinside, hf, -, hsent, -⟩ := h.open_inside
  have hfollows : t₁.Follows plan := by
    unfold Transfer.Keeps at hkeeps
    split at hopen
    · next hopened =>
      cases hopen
      rwa [if_pos hopened] at hkeeps
    · next hclosed =>
      rw [if_neg hclosed] at hkeeps
      refine @enterBlock_follows plan _ t₁ [] ?_ hopen
      rw [List.nil_append, hkeeps]
  obtain ⟨c, cs, rfl⟩ := List.exists_cons_of_ne_nil hne
  obtain ⟨out, hout, hspec⟩ := writeLoop_spec rest t₁ cur file (c :: cs) hinside (hsent ▸ hd) hf
  simp only [readMiss, hopen, Option.bind_some, hinside.brange, List.tail_cons, hout] at hcall
  cases hspec with
  | fits inside faithful carries fit count grows sent isOpen =>
    have hrest : rest = t₁.brange.tail := by rw [hinside.brange, List.tail_cons]
    exact writeTail_follows (writeLoop_follows hfollows hrest hout) inside hcall
  | overflow between done faithful count grows sent =>
    cases hcall
    exact .inr (.inl rfl)

/-- Inside a block, a miss is not turned exactly when the rest of the plan needs the server. -/
theorem Inside.turned_iff (h : Inside range_min e t cur rest) (howes : t.Owes) (hfollows : t.Follows plan)
    (htiles : TilesBytes range_min plan e) :
    t.miss2hit = false ↔ NeedsServer plan (range_min + t.filesended) := by
  obtain ⟨front, blk, cur', hplan, hcur, ha, hb, hwrite⟩ := hfollows
  rw [h.brange] at hplan hcur
  obtain rfl : cur = cur' := Option.some.inj hcur
  rw [List.tail_cons] at hplan
  have hnext := h.next
  have hlimit := h.limit
  have hacc := h.acumulate
  constructor
  · intro hturned _
    unfold Transfer.Owes at howes
    rw [h.brange, List.tail_cons, hturned] at howes
    rcases howes with hfalse | hbwrite | ⟨w, hw, hneg⟩
    · cases hfalse
    · refine ⟨blk, ?_, hwrite.mp hbwrite, by omega⟩
      rw [hplan]
      exact List.mem_append_right front List.mem_cons_self
    · have hbehind := h.tiles.2.2.bounds hw
      refine ⟨w, ?_, hneg, by omega⟩
      rw [hplan]
      exact List.mem_append_right front (List.mem_cons_of_mem blk hw)
  · intro hneeds
    by_contra hturned
    obtain ⟨hbwrite, hall⟩ := h.turned (Bool.eq_true_of_not_eq_false hturned)
    have hblk : blk ∈ plan := by
      rw [hplan]
      exact List.mem_append_right front List.mem_cons_self
    obtain ⟨w, hw, hneg, hle⟩ := hneeds ⟨blk, hblk, by omega⟩
    rw [hplan] at hw htiles
    rcases List.mem_append.mp hw with hw | hw
    · -- the blocks in front are passed
      obtain ⟨m, hfront, hrest⟩ := htiles.split
      have := hfront.bounds hw
      have := hrest.1
      omega
    · rcases List.mem_cons.mp hw with rfl | hw
      · rw [hwrite.mpr hneg] at hbwrite
        cases hbwrite
      · have := hall w hw
        omega

end Following

end Haarp
