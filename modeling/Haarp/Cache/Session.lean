import Haarp.Base.Run
import Haarp.Cache.Progress

/-!
# Sessions one after the other

A session loads the list that the last one recorded, plans its request, receives a body and is ended
by `Update` at any point. `Sessions` is the system of such sessions on one entry: its state is the
cache file, the recorded columns `rg` and `pos` and the running session. The timer of the writer may
show anything, so the save of a part of a block may come after any piece.

`stored_bytes_right`: in every state reached, the cache file holds the right bytes for every block of
the list in memory and of the recorded one.
-/

namespace Haarp

open Base

/-! ## What is told of the list -/

/-- What a session tells the database: its list as it is afterwards, or that it is over. -/
def Logged (t t' : Transfer) : Prop :=
  ∃ new, t'.log = t.log ++ new ∧ ∀ s ∈ new, Tells t.r.key t'.lranges s.1

theorem Logged.of_eq {t t' : Transfer} (h : t'.log = t.log) : Logged t t' :=
  ⟨[], by rw [h, List.append_nil], by simp⟩

theorem Logged.tells {t t' : Transfer} (h : Logged t t')
    (ht : ∀ s ∈ t.log, ∃ key l, Tells key l s.1) : ∀ s ∈ t'.log, ∃ key l, Tells key l s.1 := by
  obtain ⟨new, hnew, hall⟩ := h
  rw [hnew]
  intro s hs
  rcases List.mem_append.mp hs with hs | hs
  · exact ht s hs
  · exact ⟨_, _, hall s hs⟩

theorem Told.key {db : Db} {t : Transfer} {part : BodyPart} (h : Told db t part) :
    part.t.r.key = t.r.key := by
  cases h with
  | silent frame log => rw [frame.r]
  | saved frame log => rw [frame.r]
  | released value r hit log was_liberate =>
    rw [r]
    rfl

theorem Told.logged {db : Db} {t : Transfer} {part : BodyPart} (h : Told db t part) :
    Logged t part.t := by
  have hkey := h.key
  cases h with
  | silent frame log => exact .of_eq log
  | saved frame log =>
    refine ⟨_, log, fun s hs => ?_⟩
    rw [List.mem_singleton.mp hs, ← hkey]
    exact .record _ _
  | released value r hit log was_liberate =>
    unfold liberateEdition at log
    split at log
    · exact .of_eq log
    · refine ⟨_, log, fun s hs => ?_⟩
      rw [List.mem_singleton.mp hs]
      exact .liberate

/-! ## The end of a session -/

section Ending

variable {β : Type} {view : Char → β} {R : Int → β} {range_min e : Int} {t : Transfer} {file : Str}

/-- A session with nothing left to store: outside a block, or inside one that is stored. -/
def Settled (t : Transfer) : Prop := t.acumulate = 0 ∨ t.bwrite = false

theorem appendCurrent_settled (h : Settled t) : (appendCurrent t).lranges = t.lranges := by
  unfold appendCurrent
  split
  · rw [if_neg (by rcases h with h | h <;> simp [h])]
  · rfl

/-- `Update` stores what the current block holds so far. -/
theorem appendCurrent_inside {cur : IntervalPositionByteDisk} {rest : LintervalPositionByteDisk}
    (h : Inside range_min e t cur rest)
    (hf : Holds view R (Laid t.lranges t.bwrite cur t.acumulate) file) :
    Grows range_min (range_min + t.filesended) t.lranges (appendCurrent t).lranges ∧
      Holds view R (Placed (appendCurrent t).lranges) file ∧
      ∀ n, range_min ≤ n → n < range_min + t.filesended →
        n ∈ storedBytes (appendCurrent t).lranges := by
  have hacc := h.acumulate
  have hlim := h.limit
  have hnext := h.next
  simp only [appendCurrent, h.brange]
  split
  · next hadd =>
    have hfresh := (h.fresh hadd.2).firstPart (k := t.acumulate) (by omega) (by omega)
    have hpart : { cur with b := cur.a + t.acumulate - 1 } = cur.firstPart t.acumulate := by
      simp only [IntervalPositionByteDisk.firstPart, Int.add_comm]
    have hwf := h.wellFormed.toStoredList
    rw [hpart]
    refine ⟨.append .refl hfresh h.start.2 ?_, ?_, ?_⟩
    · simp only [IntervalPositionByteDisk.firstPart]
      omega
    · rw [hadd.2] at hf
      refine holds_appendNode hwf hfresh rfl rfl ?_ hf
      simp only [IntervalPositionByteDisk.firstPart]
      omega
    · intro n hn hn'
      refine covered_appendNode hwf hfresh (h.covered n hn) ?_
      simp only [IntervalPositionByteDisk.firstPart]
      omega
  · next hkeep =>
    refine ⟨.refl, hf.mono fun n p hn => .inl hn, fun n hn hn' => ?_⟩
    by_cases hna : n < cur.a
    · exact h.covered n hn hna
    · have hbw : t.bwrite = false := by
        by_contra hb
        exact hkeep ⟨by omega, by simpa using hb⟩
      exact ((h.located hbw).2 n (by omega) (by omega)).stored

/-- From `t` on, the database is told of no list but `l`. -/
structure Telling (l : LintervalPositionByteDisk) (t t' : Transfer) : Prop where
  r : t'.r = t.r
  log : ∃ new, t'.log = t.log ++ new ∧ ∀ s ∈ new, Tells t.r.key l s.1

theorem Telling.of_eq {l : LintervalPositionByteDisk} {t t' : Transfer} (hr : t'.r = t.r)
    (hlog : t'.log = t.log) : Telling l t t' :=
  ⟨hr, [], by rw [hlog, List.append_nil], by simp⟩

theorem Telling.trans {l : LintervalPositionByteDisk} {t t' t'' : Transfer} (h : Telling l t t')
    (h' : Telling l t' t'') : Telling l t t'' := by
  obtain ⟨new, hnew, hall⟩ := h.log
  obtain ⟨new', hnew', hall'⟩ := h'.log
  refine ⟨h'.r.trans h.r, new ++ new', by rw [hnew', hnew, List.append_assoc], fun s hs => ?_⟩
  rcases List.mem_append.mp hs with hs | hs
  · exact hall s hs
  · exact h.r ▸ hall' s hs

theorem set_telling (db : Db) (t : Transfer) {l : LintervalPositionByteDisk} {s : Stmt}
    (hs : Tells t.r.key l s) : Telling l t (t.set db s).2 := by
  refine ⟨rfl, [_], rfl, fun s' hs' => ?_⟩
  rw [List.mem_singleton.mp hs']
  exact hs

theorem liberateEdition_telling (db : Db) (t : Transfer) (l : LintervalPositionByteDisk) :
    Telling l t (liberateEdition db t) := by
  unfold liberateEdition
  split
  · exact .of_eq rfl rfl
  · exact (set_telling db t .liberate).trans (.of_eq rfl rfl)

theorem updateMiss_telling (db : Db) (t : Transfer) :
    Telling (appendCurrent t).lranges t (updateMiss db t) := by
  have happend : Telling (appendCurrent t).lranges t (appendCurrent t) :=
    .of_eq (appendCurrent_r t) (appendCurrent_log t)
  unfold updateMiss
  dsimp only
  split
  · exact happend.trans (.of_eq rfl rfl)
  · split
    · have hset := set_telling db (appendCurrent t) (s := (appendCurrent t).recordStmt) (.record _ _)
      generalize ((appendCurrent t).set db (appendCurrent t).recordStmt).2 = t₁ at hset ⊢
      have hflag : Telling (appendCurrent t).lranges t { t₁ with hasupdate := true } :=
        (happend.trans hset).trans (.of_eq rfl rfl)
      exact (hflag.trans (liberateEdition_telling db _ _)).trans (.of_eq rfl rfl)
    · have hflag : Telling (appendCurrent t).lranges t { appendCurrent t with hasupdate := true } :=
        happend.trans (.of_eq rfl rfl)
      exact (hflag.trans (liberateEdition_telling db _ _)).trans (.of_eq rfl rfl)

theorem updateHit_telling (db : Db) (t : Transfer) (l : LintervalPositionByteDisk) :
    Telling l t (updateHit db t) := by
  unfold updateHit
  split
  · split
    · exact (set_telling db t (.requested _)).trans (.of_eq rfl rfl)
    · exact .of_eq rfl rfl
  · exact .of_eq rfl rfl

/-- `Update` tells the database of no list but the one it stores. -/
theorem update_telling (db : Db) (t : Transfer) :
    Telling (appendCurrent t).lranges t (update db t) := by
  unfold update
  dsimp only
  generalize ht₁ : (if t.r.isMatch = true ∧ ¬ t.hit = true then updateMiss db t
    else if t.hit = true then updateHit db t else t) = t₁
  have h₁ : Telling (appendCurrent t).lranges t t₁ := by
    rw [← ht₁]
    split
    · exact updateMiss_telling db t
    · split
      · exact updateHit_telling db t _
      · exact .of_eq rfl rfl
  split
  · exact (h₁.trans (liberateEdition_telling db t₁ _)).trans (.of_eq rfl rfl)
  · exact h₁.trans (.of_eq rfl rfl)

end Ending

/-! ## The system -/

/-- The members of the connection when the plan of a request is made: `initializeVariables`, what
`Cache` resets, and the plan for the list it has loaded. -/
def Transfer.start (r : Resposta) (l : LintervalPositionByteDisk) (range_min range_max now : Int) :
    Transfer :=
  let (lrangeswork, hit) := getRangeWork l range_min range_max
  { r, hit, miss2hit := false, lranges := sortIntervals l, passed := [], brange := lrangeswork
    acumulate := 0, bwrite := false, limit := 0, np := 0, count_wait := 0, timerecord := now
    hasupdate := false, filesended := 0, oldfilesended := 0
    filesizeneto := range_max - range_min + 1, isOpen := false, offset := 0, failed := false
    exists_transaction_editing_file := false, was_liberate := false, connected := true
    operation := some .select, log := [] }

/-- A file that reaches to the end of every block holds bytes for all of them. -/
theorem holds_of_length {l : LintervalPositionByteDisk} (hl : WellFormed l) {file : Str}
    (hfile : ∀ x ∈ l, x.lastPosition < file.length) :
    Holds (fun _ => ()) (fun _ => ()) (Placed l) file := by
  rintro n p ⟨x, hx, hxa, hxb, hp⟩
  have hlast := hfile x hx
  have hpos := (hl.bounds x hx).2.2
  simp only [IntervalPositionByteDisk.lastPosition] at hlast
  rw [cell_eq_some]
  refine ⟨by omega, ?_⟩
  rw [List.getElem?_map, List.getElem?_eq_getElem (by omega), Option.map_some]

/-- Before the first call of a session for the list `l`: the plan is made, and nothing is sent. -/
structure Transfer.Starts (l plan : LintervalPositionByteDisk) (t : Transfer) : Prop where
  lranges : t.lranges.Perm l
  passed : t.passed = []
  brange : t.brange = plan
  acumulate : t.acumulate = 0
  miss2hit : t.miss2hit = false
  isOpen : t.isOpen = false
  filesended : t.filesended = 0

theorem start_starts (r : Resposta) (l : LintervalPositionByteDisk) (range_min range_max now : Int) :
    (Transfer.start r l range_min range_max now).Starts l (getRangeWork l range_min range_max).1 :=
  ⟨sortIntervals_perm l, rfl, rfl, rfl, rfl, rfl, rfl⟩

section Starting

variable {β : Type} {view : Char → β} {R : Int → β} {l plan : LintervalPositionByteDisk}
  {range_min range_max e : Int} {t : Transfer} {file : Str}

/-- A session starts before the first block of its plan. -/
theorem Transfer.Starts.receiving (h : t.Starts l plan) (hl : WellFormed l)
    (hholds : Holds view R (Placed l) file) (h₀ : 0 ≤ range_min) (hmore : range_min < e)
    (htiles : TilesBytes range_min plan e) (hblocks : ∀ w ∈ plan, Missing l w ∨ InStored l w) :
    Receiving view R range_min e t file := by
  obtain ⟨hperm, hpassed, hbrange, hacc, hmiss, hopen, hsent⟩ := h
  have hlranges := hl.perm hperm.symm
  refine .unopened hopen hpassed ⟨hlranges, ?_, ?_, hacc, ⟨h₀, by omega⟩, ?_, ?_⟩ (by omega)
    (hholds.mono fun n p hn => (placed_perm hperm).mp hn)
  · rw [hbrange, hsent, Int.add_zero]
    exact htiles
  · intro w hw
    rcases hblocks w (hbrange ▸ hw) with hmiss | hin
    · exact ((missing_perm hperm).mpr hmiss).todo
    · exact .inr (((inStored_perm hperm).mpr hin).located hlranges.toStoredList)
  · intro n hn hn'
    omega
  · intro hm
    rw [hmiss] at hm
    cases hm

theorem lt_planEnd (hle : range_min ≤ range_max) : range_min < planEnd l range_min range_max := by
  rw [planEnd]
  split <;> omega

theorem start_receiving (hl : WellFormed l) (hholds : Holds view R (Placed l) file) (r : Resposta)
    (now : Int) (h₀ : 0 ≤ range_min) (hle : range_min ≤ range_max) :
    Receiving view R range_min (planEnd l range_min range_max)
      (Transfer.start r l range_min range_max now) file := by
  obtain ⟨htiles, hblocks, -⟩ := getRangeWork_spec hl.toStoredList h₀ hle
  exact (start_starts r l range_min range_max now).receiving hl hholds h₀ (lt_planEnd hle) htiles hblocks

end Starting

/-- A running session: how many bytes of the body the server has sent, and whether a call has
returned -1. -/
structure Running where
  t : Transfer
  range_min : Int
  received : Int
  ended : Bool
  deriving DecidableEq

/-- An entry of the cache and the session that uses it. -/
structure Entry where
  table : Table
  file : Str
  running : Option Running

/-- The steps of sessions on the entry `key` for the resource `R`. -/
inductive Entry.Step (key : Key) (R : Int → Char) : Entry → Entry → Prop
  | start {e : Entry} (r : Resposta) (range_min range_max now : Int) (idle : e.running = none)
      (hkey : r.key = key) (h₀ : 0 ≤ range_min) (hle : range_min ≤ range_max)
      (hmax : range_max < llongMax) :
      Step key R e
        { e with
          running := some
            { t := .start r (e.table.ranges key) range_min range_max now, range_min, received := 0
              ended := false } }
  | timer {e : Entry} {s : Running} (timerecord count_wait : Int) (running : e.running = some s) :
      Step key R e { e with running := some { s with t := { s.t with timerecord, count_wait } } }
  | piece {e : Entry} {s : Running} (db : Db) (now : Int) (d : Str) (part : BodyPart)
      (running : e.running = some s) (going : s.ended = false) (hne : d ≠ [])
      (hR : ∀ i < d.length, d[i]? = some (R (s.range_min + s.received + i)))
      (hlen : s.received + d.length ≤ s.t.filesizeneto)
      (call : readBodyPart db now s.t e.file (some d) = some part) :
      Step key R e
        { table := e.table.run now (part.t.log.drop s.t.log.length), file := part.file
          running := some
            { s with
              t := part.t, received := s.received + d.length
              ended := decide (part.BodyLength = -1) } }
  | update {e : Entry} {s : Running} (db : Db) (now : Int) (running : e.running = some s) :
      Step key R e
        { e with
          table := e.table.run now ((update db s.t).log.drop s.t.log.length), running := none }

/-- The list in memory. -/
def Entry.lranges (e : Entry) : LintervalPositionByteDisk :=
  match e.running with
  | some s => s.t.lranges
  | none => []

/-! ## The invariant -/

section Invariant

variable {key : Key} {R : Int → Char}

/-- Where a session stands: it waits for a piece, or stores nothing any more. -/
inductive Running.Stands (R : Int → Char) (s : Running) (file : Str) : Prop
  | receiving (e : Int) (below : e ≤ llongMax + 1) (miss : s.t.hit = false ∧ s.t.miss2hit = false)
      (waits : Receiving id R s.range_min e s.t file) (received : s.received = s.t.filesended)
  | settled (settled : Settled s.t) (holds : Holds id R (Placed s.t.lranges) file)
      (done : s.ended = true ∨ ((s.t.hit = true ∨ s.t.miss2hit = true) ∧ s.t.bwrite = false) ∨
        s.received = s.t.filesizeneto)

/-- The list `l` is recorded in the row, without holes, and the file holds its bytes. -/
structure Records (key : Key) (R : Int → Char) (tb : Table) (file : Str)
    (l : LintervalPositionByteDisk) : Prop where
  loads : generateList (tb.columns key).1 (tb.columns key).2 = (true, l)
  packed : Packed (llongMax + 1) l
  holds : Holds id R (Placed l) file

/-- The invariant of the system. -/
structure Entry.Inv (key : Key) (R : Int → Char) (e : Entry) : Prop where
  recorded : ∃ l, Records key R e.table e.file l ∧
    ∀ s, e.running = some s → ∀ n p, Placed l n p → Placed s.t.lranges n p
  running : ∀ s, e.running = some s →
    s.t.r.key = key ∧ Packed (llongMax + 1) s.t.lranges ∧ s.Stands R e.file

/-- The numbers of a list without holes are written and read back. -/
theorem Packed.inRange {l : LintervalPositionByteDisk} (h : Packed (llongMax + 1) l) : InRange l := by
  have hend := h.getPointEnd_le (by decide)
  refine ⟨fun x hx => (h.bounds x hx).1, fun x hx => ⟨(h.bounds x hx).2.1, ?_⟩, fun x hx => ?_⟩
  · have := h.below x hx
    omega
  · have hb := h.bounds x hx
    have := (getPointEnd_spec h.toWellFormed).1 x hx
    simp only [IntervalPositionByteDisk.lastPosition] at this
    omega

/-- A row that records a list without holes, with its bytes in the file. -/
theorem records_list2string {l : LintervalPositionByteDisk} {tb : Table} {file : Str}
    (hl : Packed (llongMax + 1) l) (hholds : Holds id R (Placed l) file)
    (hcols : tb.columns key = list2string l) : Records key R tb file l.reverse := by
  have hperm : l.reverse.Perm l := List.reverse_perm l
  refine ⟨?_, hl.perm hperm.symm, hholds.mono fun n p hn => (placed_perm hperm).mp hn⟩
  rw [hcols]
  exact generateList_list2string hl.inRange

/-- What the row records after a session has told of the list `l'`. -/
theorem Records.tell {tb : Table} {file : Str} {l l' : LintervalPositionByteDisk}
    (h : Records key R tb file l) (hl' : Packed (llongMax + 1) l') {file' : Str}
    (hholds : Holds id R (Placed l') file') (hsub : ∀ n p, Placed l n p → Placed l' n p) {log : Log}
    (hlog : ∀ s ∈ log, Tells key l' s.1) (now : Int) :
    ∃ l'', Records key R (tb.run now log) file' l'' ∧ (∀ n p, Placed l n p → Placed l'' n p) ∧
      ∀ n p, Placed l'' n p → Placed l' n p := by
  have hrev : ∀ n p, Placed l'.reverse n p ↔ Placed l' n p :=
    fun n p => placed_perm (List.reverse_perm l')
  rcases run_columns hlog now tb with hcols | hcols
  · exact ⟨l, ⟨hcols ▸ h.loads, h.packed, hholds.mono hsub⟩, fun n p hn => hn, hsub⟩
  · exact ⟨l'.reverse, records_list2string hl' hholds hcols,
      fun n p hn => (hrev n p).mpr (hsub n p hn), fun n p hn => (hrev n p).mp hn⟩

/-- A session starts in a state that waits for a piece, or with a hit. -/
theorem start_stands {l : LintervalPositionByteDisk} {file : Str} (hl : Packed (llongMax + 1) l)
    (hholds : Holds id R (Placed l) file) (r : Resposta) {range_min range_max : Int} (now : Int)
    (h₀ : 0 ≤ range_min) (hle : range_min ≤ range_max) (hmax : range_max ≤ llongMax) :
    let t := Transfer.start r l range_min range_max now
    Packed (llongMax + 1) t.lranges ∧ (∀ n p, Placed l n p → Placed t.lranges n p) ∧
      Running.Stands R { t, range_min, received := 0, ended := false } file := by
  have hperm := sortIntervals_perm l
  refine ⟨hl.perm hperm.symm, fun n p hn => (placed_perm hperm).mpr hn, ?_⟩
  cases hhit : (getRangeWork l range_min range_max).2 with
  | true =>
    exact .settled (.inl rfl) (hholds.mono fun n p hn => (placed_perm hperm).mp hn)
      (.inr (.inl ⟨.inl hhit, rfl⟩))
  | false =>
    refine .receiving (planEnd l range_min range_max) ?_ ⟨hhit, rfl⟩
      (start_receiving hl.toWellFormed hholds r now h₀ hle) rfl
    rw [planEnd]
    split <;> omega

/-- What a call leaves of a session that waits for a piece. -/
theorem piece_stands {s : Running} {e : Int} {d : Str} {part : BodyPart}
    (h : MissSpec id R s.range_min e s.t d part) (he : e ≤ llongMax + 1) (hhit : s.t.hit = false)
    (hreceived : s.received = s.t.filesended) (hframe : part.BodyLength ≠ -1 → Frame s.t part.t) :
    Running.Stands R { s with
        t := part.t, received := s.received + d.length, ended := decide (part.BodyLength = -1) }
      part.file := by
  cases h with
  | inside value isOpen inside faithful sent =>
    have hframe := hframe (by omega)
    cases hturn : part.t.miss2hit with
    | false =>
      exact .receiving e he ⟨hframe.hit.trans hhit, hturn⟩ (.opened isOpen inside faithful)
        (by simp only; omega)
    | true =>
      have hbw := (inside.turned hturn).1
      exact .settled (.inr hbw) (faithful.mono fun n p hn => .inl hn)
        (.inr (.inl ⟨.inr hturn, hbw⟩))
  | complete value between done faithful sent whole =>
    refine .settled (.inl between.acumulate) faithful (.inr (.inr ?_))
    have := (hframe (by omega)).filesizeneto
    simp only
    omega
  | failed value wellFormed acumulate faithful reason =>
    exact .settled (.inl acumulate) faithful (.inl (by simp [value]))

/-- The file holds the list in memory. -/
theorem Running.Stands.holds {s : Running} {file : Str} (h : s.Stands R file) :
    Holds id R (Placed s.t.lranges) file := by
  cases h with
  | settled settled holds done => exact holds
  | receiving e below miss waits received =>
    cases waits with
    | unopened isOpen passed between more faithful => exact faithful
    | opened isOpen inside faithful => exact faithful.mono fun n p hn => .inl hn

theorem Running.Stands.timer {s : Running} {file : Str} (h : s.Stands R file)
    (timerecord count_wait : Int) :
    Stands R { s with t := { s.t with timerecord, count_wait } } file := by
  cases h with
  | settled settled holds done => exact .settled settled holds done
  | receiving e below miss waits received =>
    exact .receiving e below miss (waits.timer timerecord count_wait) received

/-- One call of `ReadBodyPart`, by where the session stands. -/
theorem readBodyPart_stands {s : Running} {file : Str} (hpacked : Packed (llongMax + 1) s.t.lranges)
    (hstands : s.Stands R file) {db : Db} {now : Int} {d : Str} {part : BodyPart}
    (hgoing : s.ended = false) (hne : d ≠ [])
    (hR : ∀ i < d.length, d[i]? = some (R (s.range_min + s.received + i)))
    (hlen : s.received + d.length ≤ s.t.filesizeneto)
    (hcall : readBodyPart db now s.t file (some d) = some part) :
    Running.Stands R { s with
        t := part.t, received := s.received + d.length, ended := decide (part.BodyLength = -1) }
      part.file ∧
      Packed (llongMax + 1) part.t.lranges ∧ part.t.r.key = s.t.r.key ∧
      (∀ n p, Placed s.t.lranges n p → Placed part.t.lranges n p) ∧ Logged s.t part.t := by
  have hpos := List.length_pos_iff.mpr hne
  have htold := readBodyPart_told hcall
  unfold readBodyPart at hcall
  cases hstands with
  | receiving e below miss waits received =>
    rw [if_neg (by simp [miss])] at hcall
    have hcarries : Carries id R (s.range_min + s.t.filesended) d := by
      intro i hi
      rw [List.map_id, hR i hi, received]
    obtain ⟨part', hcall', hspec, hgrows⟩ := readMiss_spec db now waits hne hcarries
    cases hcall.symm.trans hcall'
    have hbelow := hspec.sent_le.2.2.trans below
    exact ⟨piece_stands hspec below miss.1 received htold.frame, hgrows.packed hbelow hpacked,
      htold.key, fun n p => hgrows.placed hpacked.toWellFormed, htold.logged⟩
  | settled settled holds done =>
    have hhit := (done.resolve_left (by simp [hgoing])).resolve_right (by omega)
    rw [if_pos hhit.1] at hcall
    have hspec := readHit_told hcall
    have hbw : part.t.bwrite = false := hspec.bwrite.elim (fun hb => hb.trans hhit.2) id
    rw [hspec.lranges, hspec.file]
    refine ⟨.settled (.inr hbw) (hspec.lranges ▸ holds) ?_, hpacked, htold.key, fun n p hn => hn,
      htold.logged⟩
    by_cases hvalue : part.BodyLength = -1
    · exact .inl (by simp [hvalue])
    · have hm := hspec.mode.resolve_left hvalue
      exact .inr (.inl ⟨by simpa [(htold.frame hvalue).hit, hm] using hhit.1, hbw⟩)

/-- What `Update` stores of a session. -/
theorem appendCurrent_stands {s : Running} {file : Str} (hpacked : Packed (llongMax + 1) s.t.lranges)
    (hstands : s.Stands R file) :
    Packed (llongMax + 1) (appendCurrent s.t).lranges ∧
      Holds id R (Placed (appendCurrent s.t).lranges) file ∧
      ∀ n p, Placed s.t.lranges n p → Placed (appendCurrent s.t).lranges n p := by
  cases hstands with
  | settled settled holds done =>
    rw [appendCurrent_settled settled]
    exact ⟨hpacked, holds, fun n p hn => hn⟩
  | receiving e below miss waits received =>
    cases waits with
    | unopened isOpen passed between more faithful =>
      rw [appendCurrent_settled (.inl between.acumulate)]
      exact ⟨hpacked, faithful, fun n p hn => hn⟩
    | opened isOpen inside faithful =>
      obtain ⟨hgrows, hholds, -⟩ := appendCurrent_inside inside faithful
      have hbelow := inside.more.le.trans below
      exact ⟨hgrows.packed hbelow hpacked, hholds, fun n p => hgrows.placed hpacked.toWellFormed⟩

theorem Entry.Inv.step {e e' : Entry} (h : e.Inv key R) (hstep : e.Step key R e') : e'.Inv key R := by
  obtain ⟨l, hrec, hsub⟩ := h.recorded
  cases hstep with
  | start r range_min range_max now idle hkey h₀ hle hmax =>
    have hranges : e.table.ranges key = l := by rw [Table.ranges, hrec.loads]
    obtain ⟨hpacked, hplaced, hstands⟩ :=
      start_stands hrec.packed hrec.holds r now h₀ hle hmax.le
    rw [hranges]
    refine ⟨⟨l, ⟨hrec.loads, hrec.packed, hrec.holds⟩, ?_⟩, ?_⟩
    · rintro s ⟨⟩
      exact hplaced
    · rintro s ⟨⟩
      exact ⟨hkey, hpacked, hstands⟩
  | @timer s timerecord count_wait running =>
    obtain ⟨hkey, hpacked, hstands⟩ := h.running s running
    refine ⟨⟨l, ⟨hrec.loads, hrec.packed, hrec.holds⟩, ?_⟩, ?_⟩
    · rintro s' ⟨⟩
      exact hsub s running
    · rintro s' ⟨⟩
      exact ⟨hkey, hpacked, hstands.timer timerecord count_wait⟩
  | @piece s db now d part running going hne hR hlen call =>
    obtain ⟨hkey, hpacked, hstands⟩ := h.running s running
    obtain ⟨hstands', hpacked', hkey', hmono, new, hnew, hall⟩ :=
      readBodyPart_stands hpacked hstands going hne hR hlen call
    rw [hkey] at hall
    rw [hnew, List.drop_left]
    obtain ⟨l', hrec', -, hsub'⟩ := hrec.tell hpacked' hstands'.holds
      (fun n p hn => hmono n p (hsub s running n p hn)) hall now
    refine ⟨⟨l', hrec', ?_⟩, ?_⟩
    · rintro s' ⟨⟩
      exact hsub'
    · rintro s' ⟨⟩
      exact ⟨hkey'.trans hkey, hpacked', hstands'⟩
  | @update s db now running =>
    obtain ⟨hkey, hpacked, hstands⟩ := h.running s running
    obtain ⟨hr, new, hnew, hall⟩ := update_telling db s.t
    rw [hkey] at hall
    rw [hnew, List.drop_left]
    obtain ⟨hpacked', hholds', hmono⟩ := appendCurrent_stands hpacked hstands
    obtain ⟨l', hrec', -, -⟩ := hrec.tell hpacked' hholds'
      (fun n p hn => hmono n p (hsub s running n p hn)) hall now
    exact ⟨⟨l', hrec', by rintro s ⟨⟩⟩, by rintro s ⟨⟩⟩

/-- An entry that nothing was recorded for yet, with no session. -/
theorem Entry.inv_empty {e : Entry} (hempty : e.table.columns key = ([], []))
    (hidle : e.running = none) : e.Inv key R := by
  refine ⟨⟨[], ⟨by rw [hempty]; rfl, packed_nil _, ?_⟩, ?_⟩, ?_⟩
  · rintro n p ⟨x, hx, -⟩
    cases hx
  · intro s hs
    rw [hidle] at hs
    cases hs
  · intro s hs
    rw [hidle] at hs
    cases hs

/-- The file holds every block that the invariant speaks of. -/
theorem Entry.Inv.block {e : Entry} (h : e.Inv key R) {x : IntervalPositionByteDisk}
    (hx : x ∈ e.lranges ∨ x ∈ (generateList (e.table.columns key).1 (e.table.columns key).2).2)
    {k : Int} (hk : 0 ≤ k) (hk' : k ≤ x.b - x.a) :
    cell e.file (x.position + k) = some (R (x.a + k)) := by
  obtain ⟨l, hrec, -⟩ := h.recorded
  have hplaced : ∀ l', x ∈ l' → Placed l' (x.a + k) (x.position + k) := fun l' hx' =>
    ⟨x, hx', by omega, by omega, by omega⟩
  have hcell : ∀ l', x ∈ l' → Holds id R (Placed l') e.file →
      cell e.file (x.position + k) = some (R (x.a + k)) := by
    intro l' hx' hholds
    have := hholds _ _ (hplaced l' hx')
    rwa [List.map_id] at this
  rcases hx with hx | hx
  · unfold Entry.lranges at hx
    cases hs : e.running with
    | none =>
      rw [hs] at hx
      cases hx
    | some s =>
      rw [hs] at hx
      exact hcell _ hx (h.running s hs).2.2.holds
  · rw [hrec.loads] at hx
    exact hcell _ hx hrec.holds

end Invariant

/-- **Stored bytes are the right bytes.** Sessions run one after the other on an entry that started
empty; in every state reached, the cache file holds the bytes of the resource for every block of the
list in memory and of the recorded columns. -/
theorem stored_bytes_right {key : Key} {R : Int → Char} {e₀ e : Entry}
    (hempty : e₀.table.columns key = ([], [])) (hidle : e₀.running = none)
    (hrun : Run (Entry.Step key R) e₀ e) {x : IntervalPositionByteDisk}
    (hx : x ∈ e.lranges ∨ x ∈ (generateList (e.table.columns key).1 (e.table.columns key).2).2)
    {k : Int} (hk : 0 ≤ k) (hk' : k ≤ x.b - x.a) :
    cell e.file (x.position + k) = some (R (x.a + k)) :=
  (run_invariant (fun _ _ h hstep => Entry.Inv.step h hstep) hrun
    (Entry.inv_empty hempty hidle)).block hx hk hk'

theorem stored_bytes_right_twoBytes :
    ∃ e : Entry,
      Run (Entry.Step ⟨[], ['f']⟩ fun n => if n = 0 then 'x' else 'y')
        ⟨fun _ => some (Row.inserted 0), [], none⟩ e ∧
      generateList (e.table.columns ⟨[], ['f']⟩).1 (e.table.columns ⟨[], ['f']⟩).2 =
        (true, [⟨0, 1, 0⟩]) ∧
      cell e.file 1 = some 'y' := by
  have hrun : Run (Entry.Step ⟨[], ['f']⟩ fun n => if n = 0 then 'x' else 'y')
      ⟨fun _ => some (Row.inserted 0), [], none⟩ _ :=
    .tail (.tail (.single
      (.start ⟨true, [], ['f'], 0, 0, 0, false⟩ 0 1 0 rfl rfl (by decide) (by decide) (by decide)))
      (.piece (fun _ _ => true) 0 ['x', 'y'] _ rfl rfl (by decide) (by decide) (by decide) rfl))
      (.update (fun _ _ => true) 0 rfl)
  refine ⟨_, hrun, by decide, stored_bytes_right rfl rfl hrun (x := ⟨0, 1, 0⟩) (.inr ?_)
    (k := 1) (by decide) (by decide)⟩
  decide

end Haarp
