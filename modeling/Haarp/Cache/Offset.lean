import Haarp.Cache.Planning
import Haarp.Cache.Turning

/-!
# Where the body of a response starts

A miss stores the body by its plan, which starts at `range_min`. Nothing compares this with the first
byte that the server sends: `206` may announce another one, and `200` sends the file from byte 0 on.

`Running.Step` are the steps of a session whose response starts at byte `start`, of any length.
`session_right_iff`: what `Update` records is right exactly when `start` is `range_min`, or the plan
holds no byte.
-/

namespace Haarp

open Base

/-- The steps of a session with its cache file; the response has the bytes of `R` from `start` on. -/
inductive Running.Step (R : Int → Char) (start : Int) : Running × Str → Running × Str → Prop
  | timer {s : Running} {file : Str} (timerecord count_wait : Int) :
      Step R start (s, file) ({ s with t := { s.t with timerecord, count_wait } }, file)
  | piece {s : Running} {file : Str} (db : Db) (now : Int) (d : Str) (part : BodyPart)
      (going : s.ended = false) (hne : d ≠ [])
      (hR : ∀ i < d.length, d[i]? = some (R (start + s.received + i)))
      (call : readBodyPart db now s.t file (some d) = some part) :
      Step R start (s, file)
        ({ s with
            t := part.t, received := s.received + d.length, ended := decide (part.BodyLength = -1) },
          part.file)
  | update {s : Running} {file : Str} (db : Db) :
      Step R start (s, file) ({ s with t := update db s.t, ended := true }, file)

/-- The blocks that `Update` would record have their bytes in the file. -/
def RecordsRight (R : Int → Char) (x : Running × Str) : Prop :=
  Holds id R (Placed (appendCurrent x.1.t).lranges) x.2

section Right

variable {R : Int → Char} {e : Int}

/-- Where a session stands that stores the right bytes: it waits for a piece, or stores nothing any
more, or writes behind the end of its plan, where nothing is stored. -/
inductive Running.Right (R : Int → Char) (e : Int) (s : Running) (file : Str) : Prop
  | receiving (miss : s.t.hit = false ∧ s.t.miss2hit = false)
      (waits : Receiving id R s.range_min e s.t file) (received : s.received = s.t.filesended)
      (lacks : s.t.Lacks)
  | quiet (holds : Holds id R (Placed s.t.lranges) file) (settled : Settled s.t ∨ s.t.brange = [])
      (done : s.ended = true ∨ ((s.t.hit = true ∨ s.t.miss2hit = true) ∧ s.t.bwrite = false))
  | behind (miss : s.t.hit = false ∧ s.t.miss2hit = false) (isOpen : s.t.isOpen = true)
      (brange : s.t.brange = []) (wellFormed : WellFormed s.t.lranges)
      (atEnd : getPointEnd s.t.lranges ≤ s.t.offset) (holds : Holds id R (Placed s.t.lranges) file)

theorem appendCurrent_nil {t : Transfer} (h : t.brange = []) : appendCurrent t = t := by
  simp only [appendCurrent, h]

theorem Running.Right.recordsRight {s : Running} {file : Str} (h : s.Right R e file) :
    RecordsRight R (s, file) := by
  unfold RecordsRight
  cases h with
  | receiving miss waits received lacks =>
    cases waits with
    | unopened isOpen passed between more faithful =>
      rwa [appendCurrent_settled (.inl between.acumulate)]
    | opened isOpen inside faithful => exact (appendCurrent_inside inside faithful).2.1
  | quiet holds settled done =>
    rcases settled with hsettled | hnil
    · rwa [appendCurrent_settled hsettled]
    · rwa [appendCurrent_nil hnil]
  | behind miss isOpen brange wellFormed atEnd holds => rwa [appendCurrent_nil brange]

/-! ## Behind the plan -/

theorem writeTail_written {db : Db} {now : Int} {t : Transfer} {file rest d : Str} {part : BodyPart}
    (h : writeTail db now t file rest d = some part) :
    part.file = writeAt '\x00' file t.offset.toNat rest := by
  unfold writeTail writeBytes nextBlock at h
  dsimp only at h
  split at h
  · split at h
    · cases h
      rfl
    · split at h
      · cases h
        rfl
      · obtain ⟨t₁, -, rfl⟩ := Option.map_eq_some_iff.mp h
        rfl
  · cases h
    rfl

theorem holds_writeAt_end {l : LintervalPositionByteDisk} {file d : Str} {offset : Int}
    (hl : WellFormed l) (hend : getPointEnd l ≤ offset) (h : Holds id R (Placed l) file) :
    Holds id R (Placed l) (writeAt '\x00' file offset.toNat d) := by
  intro n p hn
  have hlt := (hn.lt_getPointEnd hl).2
  have hcell := h n p hn
  rw [List.map_id] at hcell ⊢
  exact cell_writeAt_out (.inl (by omega)) hcell

/-- A miss behind its plan stays there, or fails. -/
theorem readMiss_ended {t : Transfer} {file : Str} {db : Db} {now : Int} {d : Str} {part : BodyPart}
    (isOpen : t.isOpen = true) (brange : t.brange = []) (hne : d ≠ [])
    (hcall : readMiss db now t file (some d) = some part) :
    part.t.brange = [] ∧ part.t.lranges = t.lranges ∧
      part.file = writeAt '\x00' file t.offset.toNat
        (if t.acumulate + d.length > t.limit then d.take (t.limit - t.acumulate).toNat else d) ∧
      (part.BodyLength = -1 ∨ (part.BodyLength = d.length ∧ part.t.isOpen = true ∧
        part.t.hit = t.hit ∧ part.t.miss2hit = t.miss2hit ∧ t.offset ≤ part.t.offset)) := by
  obtain ⟨c, cs, rfl⟩ := List.exists_cons_of_ne_nil hne
  have hbeat : ∀ t : Transfer, t.brange = [] → ∃ timerecord count_wait,
      heartbeat db now t = { t with timerecord, count_wait } := by
    intro t hbrange
    unfold heartbeat
    split
    · rw [hbrange]
      exact ⟨_, _, rfl⟩
    · exact ⟨_, _, rfl⟩
  simp only [readMiss, isOpen, if_true, Option.bind_some, brange, List.tail_nil] at hcall
  rw [writeLoop] at hcall
  by_cases hover : t.acumulate + ((c :: cs).length : Int) > t.limit
  · rw [if_pos hover] at hcall ⊢
    split at hcall
    · cases hcall
    · simp only [writeBytes, leaveBlock, brange, Option.bind_some] at hcall
      cases hcall
      refine ⟨?_, liberateEdition_lranges _ _, rfl, .inl rfl⟩
      simp only [writeOverflow, liberateEdition]
      split <;> rfl
  · rw [if_neg hover, Option.bind_some] at hcall
    dsimp only at hcall
    rw [if_neg hover]
    have hwritten := writeTail_written hcall
    unfold writeTail writeBytes at hcall
    dsimp only at hcall
    split at hcall
    · simp only [nextBlock, leaveBlock, brange, List.isEmpty_nil, true_and, true_or, if_true] at hcall
      split at hcall
      · cases hcall
        exact ⟨rfl, rfl, hwritten, .inr ⟨rfl, isOpen, rfl, rfl, by simp only; omega⟩⟩
      · cases hcall
        exact ⟨rfl, rfl, hwritten, .inl rfl⟩
    · obtain ⟨timerecord, count_wait, hbeat⟩ := hbeat { t with
        offset := t.offset + (c :: cs).length, filesended := t.filesended + (c :: cs).length
        acumulate := t.acumulate + (c :: cs).length } brange
      rw [hbeat] at hcall
      cases hcall
      exact ⟨brange, rfl, hwritten, .inr ⟨rfl, isOpen, rfl, rfl, by simp only; omega⟩⟩

/-- A piece behind the plan is written behind all that is stored. -/
theorem readMiss_behind {s : Running} {file : Str} {db : Db} {now : Int} {d : Str} {part : BodyPart}
    (miss : s.t.hit = false ∧ s.t.miss2hit = false) (isOpen : s.t.isOpen = true)
    (brange : s.t.brange = []) (wellFormed : WellFormed s.t.lranges)
    (atEnd : getPointEnd s.t.lranges ≤ s.t.offset) (holds : Holds id R (Placed s.t.lranges) file)
    (hne : d ≠ []) (hcall : readMiss db now s.t file (some d) = some part) :
    Running.Right R e { s with
        t := part.t, received := s.received + d.length, ended := decide (part.BodyLength = -1) }
      part.file := by
  obtain ⟨hbrange, hlranges, hwritten, hvalue⟩ := readMiss_ended isOpen brange hne hcall
  have hheld : Holds id R (Placed part.t.lranges) part.file := by
    rw [hlranges, hwritten]
    exact holds_writeAt_end wellFormed atEnd holds
  rcases hvalue with hfail | ⟨-, hisOpen, hhit, hturn, hle⟩
  · exact .quiet hheld (.inr hbrange) (.inl (decide_eq_true hfail))
  · refine .behind ⟨hhit.trans miss.1, hturn.trans miss.2⟩ hisOpen hbrange ?_ ?_ hheld
    · rwa [hlranges]
    · rw [hlranges]
      exact atEnd.trans hle

/-! ## A step -/

theorem Running.Right.timer {s : Running} {file : Str} (h : s.Right R e file)
    (timerecord count_wait : Int) :
    Right R e { s with t := { s.t with timerecord, count_wait } } file := by
  cases h with
  | receiving miss waits received lacks =>
    exact .receiving miss (waits.timer timerecord count_wait) received lacks
  | quiet holds settled done => exact .quiet holds settled done
  | behind miss isOpen brange wellFormed atEnd holds =>
    exact .behind miss isOpen brange wellFormed atEnd holds

/-- What a piece leaves of a session that waits for it. -/
theorem readMiss_right {s : Running} {file : Str} {db : Db} {now : Int} {d : Str} {part : BodyPart}
    (miss : s.t.hit = false ∧ s.t.miss2hit = false) (waits : Receiving id R s.range_min e s.t file)
    (received : s.received = s.t.filesended) (lacks : s.t.Lacks) (hne : d ≠ [])
    (hR : ∀ i < d.length, d[i]? = some (R (s.range_min + s.received + i)))
    (hcall : readMiss db now s.t file (some d) = some part)
    (hframe : part.BodyLength ≠ -1 → Frame s.t part.t) :
    Running.Right R e { s with
        t := part.t, received := s.received + d.length, ended := decide (part.BodyLength = -1) }
      part.file := by
  have hlen := List.length_pos_iff.mpr hne
  have hcarries : Carries id R (s.range_min + s.t.filesended) d := by
    intro i hi
    rw [List.map_id, hR i hi, received]
  obtain ⟨part', hcall', hspec, -⟩ := readMiss_spec db now waits hne hcarries
  cases hcall.symm.trans hcall'
  have hahead := readMiss_ahead waits lacks hne hcarries hcall
  cases hspec with
  | inside value isOpen inside faithful sent =>
    have howes : part.t.Owes := by
      rcases hahead (by omega) with ⟨-, howes⟩ | ⟨hnil, -⟩
      · exact howes
      · rw [inside.brange] at hnil
        cases hnil
    have hframe := hframe (by omega)
    cases hturn : part.t.miss2hit with
    | true =>
      have hbwrite := (inside.turned hturn).1
      exact .quiet (faithful.mono fun n p hn => .inl hn) (.inl (.inr hbwrite))
        (.inr ⟨.inr hturn, hbwrite⟩)
    | false =>
      refine .receiving ⟨hframe.hit.trans miss.1, hturn⟩ (.opened isOpen inside faithful)
        (by simp only; omega) ?_
      unfold Transfer.Lacks
      simp only [isOpen, if_true]
      exact howes
  | complete value between done faithful sent whole =>
    have hframe := hframe (by omega)
    obtain ⟨-, hisOpen, hturned | ⟨hmiss, hend⟩⟩ :=
      (hahead (by omega)).resolve_left fun h => h.1 done
    · exact .quiet faithful (.inr done) (.inr ⟨.inr hturned.1, hturned.2⟩)
    · exact .behind ⟨hframe.hit.trans miss.1, hmiss⟩ hisOpen done between.wellFormed hend faithful
  | failed value wellFormed acumulate faithful reason sent covered =>
    exact .quiet faithful (.inl (.inl acumulate)) (.inl (by simp [value]))

theorem Running.Right.step {s : Running} {file : Str} (h : s.Right R e file) {x : Running × Str}
    (hstep : Running.Step R s.range_min (s, file) x) :
    x.1.Right R e x.2 ∧ x.1.range_min = s.range_min := by
  cases hstep with
  | timer timerecord count_wait => exact ⟨h.timer timerecord count_wait, rfl⟩
  | update db => exact ⟨.quiet (by rintro n p ⟨x, ⟨⟩, -⟩) (.inr rfl) (.inl rfl), rfl⟩
  | piece db now d part going hne hR call =>
    refine ⟨?_, rfl⟩
    have htold := readBodyPart_told call
    unfold readBodyPart at call
    cases h with
    | receiving miss waits received lacks =>
      rw [if_neg (by simp [miss])] at call
      exact readMiss_right miss waits received lacks hne hR call htold.frame
    | behind miss isOpen brange wellFormed atEnd holds =>
      rw [if_neg (by simp [miss])] at call
      exact readMiss_behind miss isOpen brange wellFormed atEnd holds hne call
    | quiet holds settled done =>
      have hhit := done.resolve_left (by simp [going])
      rw [if_pos hhit.1] at call
      have hspec := readHit_told call
      have hbwrite : part.t.bwrite = false := hspec.bwrite.elim (fun hb => hb.trans hhit.2) id
      have hholds : Holds id R (Placed part.t.lranges) part.file := by
        rw [hspec.lranges, hspec.file]
        exact holds
      refine .quiet hholds (.inl (.inr hbwrite)) ?_
      by_cases hvalue : part.BodyLength = -1
      · exact .inl (by simp [hvalue])
      · have hturned := hspec.mode.resolve_left hvalue
        exact .inr ⟨by simpa [(htold.frame hvalue).hit, hturned] using hhit.1, hbwrite⟩

/-! ## A plan without a byte -/

/-- The plan has no block, or one without a byte. -/
def VoidPlan (plan : LintervalPositionByteDisk) : Prop :=
  plan = [] ∨ ∃ blk, plan = [blk] ∧ blk.b < blk.a ∧ blk.position < 0

/-- A session with such a plan, or one that is over. -/
inductive Running.Void (R : Int → Char) (s : Running) (file : Str) : Prop
  | waits (miss : s.t.hit = false ∧ s.t.miss2hit = false) (isOpen : s.t.isOpen = false)
      (plan : VoidPlan s.t.lrangeswork) (acumulate : s.t.acumulate = 0)
      (holds : Holds id R (Placed s.t.lranges) file)
  | ended (ended : s.ended = true) (brange : s.t.brange = [])
      (holds : Holds id R (Placed s.t.lranges) file)

/-- A block without a byte adds nothing. -/
theorem placed_appendNode_empty {l : LintervalPositionByteDisk} {w : IntervalPositionByteDisk}
    {n p : Int} (hw : w.b + 1 = w.a) (h : Placed (appendNode l w) n p) : Placed l n p := by
  rcases appendNode_appended l w with hperm | ⟨last, rest, hperm, hnext, -, hperm'⟩
  · obtain ⟨x, hx, hxa, hxb, hp⟩ := (placed_perm hperm).mp h
    rcases List.mem_cons.mp hx with rfl | hx
    · omega
    · exact ⟨x, hx, hxa, hxb, hp⟩
  · have hlast : ({ last with b := w.b } : IntervalPositionByteDisk) = last := by
      have hb : w.b = last.b := by omega
      rw [hb]
    rw [hlast] at hperm'
    exact (placed_perm hperm).mpr ((placed_perm hperm').mp h)

/-- The first piece is longer than such a plan. -/
theorem readMiss_void {t : Transfer} {file : Str} {db : Db} {now : Int} {d : Str} {part : BodyPart}
    (isOpen : t.isOpen = false) (plan : VoidPlan t.lrangeswork) (hne : d ≠ [])
    (hcall : readMiss db now t file (some d) = some part) :
    part.BodyLength = -1 ∧ part.t.brange = [] ∧ part.file = file ∧
      ∃ w : IntervalPositionByteDisk, w.b + 1 = w.a ∧ part.t.lranges = appendNode t.lranges w := by
  have hlen := List.length_pos_iff.mpr hne
  obtain ⟨c, cs, rfl⟩ := List.exists_cons_of_ne_nil hne
  rcases plan with hnil | ⟨blk, lrangeswork, empty, missing⟩
  · simp only [readMiss, isOpen, Bool.false_eq_true, if_false, openMiss, hnil, enterBlock,
      Option.bind_none, reduceCtorEq] at hcall
  simp only [readMiss, isOpen, Bool.false_eq_true, if_false, openMiss, lrangeswork, enterBlock, missing,
    decide_true, if_true, Option.bind_some, List.tail_cons] at hcall
  rw [writeLoop] at hcall
  simp only at hcall
  rw [if_pos (by omega)] at hcall
  split at hcall
  · cases hcall
  · next hlimit =>
    have hzero : (blk.b - blk.a + 1 - 0).toNat = 0 := by omega
    simp only [hzero, List.take_zero, writeBytes, leaveBlock, if_true, Option.bind_some] at hcall
    cases hcall
    refine ⟨rfl, ?_, rfl, { blk with position := getPointEnd t.lranges }, by simp only; omega, ?_⟩
    · simp only [writeOverflow, liberateEdition]
      split <;> rfl
    · simp only [writeOverflow, liberateEdition_lranges]

theorem Running.Void.step {start : Int} {s : Running} {file : Str} (h : s.Void R file)
    {x : Running × Str} (hstep : Running.Step R start (s, file) x) : x.1.Void R x.2 := by
  cases hstep with
  | timer timerecord count_wait =>
    cases h with
    | waits miss isOpen plan acumulate holds => exact .waits miss isOpen plan acumulate holds
    | ended ended brange holds => exact .ended ended brange holds
  | update db => exact .ended rfl rfl (by rintro n p ⟨x, ⟨⟩, -⟩)
  | piece db now d part going hne hR call =>
    cases h with
    | ended ended brange holds =>
      rw [going] at ended
      cases ended
    | waits miss isOpen plan acumulate holds =>
      rw [readBodyPart, if_neg (by simp [miss])] at call
      obtain ⟨hvalue, hbrange, hfile, w, hw, hlranges⟩ := readMiss_void isOpen plan hne call
      refine .ended (decide_eq_true hvalue) hbrange ?_
      rw [hfile]
      refine holds.mono fun n p hn => ?_
      dsimp only at hn
      rw [hlranges] at hn
      exact placed_appendNode_empty hw hn

theorem Running.Void.recordsRight {s : Running} {file : Str} (h : s.Void R file) :
    RecordsRight R (s, file) := by
  unfold RecordsRight
  cases h with
  | waits miss isOpen plan acumulate holds => rwa [appendCurrent_settled (.inl acumulate)]
  | ended ended brange holds => rwa [appendCurrent_nil brange]

end Right

/-! ## The first byte -/

section Start

variable {l : LintervalPositionByteDisk} {t : Transfer} {range_min top start : Int}

/-- A session before the body of its response. -/
def Transfer.session (t : Transfer) (range_min : Int) : Running :=
  { t, range_min, received := 0, ended := false }

/-- A miss before its body has a block to store. -/
theorem Transfer.Starts.lacks (hl : WellFormed l) (h₀ : 0 ≤ range_min) (hle : range_min ≤ top)
    (hmiss : (getRangeWork l range_min top).2 = false)
    (hstart : t.Starts l (getRangeWork l range_min top).1) : t.Lacks := by
  obtain ⟨-, hblocks, hall⟩ := getRangeWork_spec hl.toStoredList h₀ hle
  have hisOpen := hstart.isOpen
  unfold Transfer.Lacks
  rw [if_neg (by simp [hisOpen]), Transfer.lrangeswork, hstart.passed, hstart.brange, List.nil_append]
  by_contra hnone
  push Not at hnone
  have hstored : (getRangeWork l range_min top).2 = true := by
    refine hall.mpr fun w hw => (hblocks w hw).resolve_left fun hm => ?_
    have hpos := hnone w hw
    rw [hm.1] at hpos
    exact absurd hpos (by decide)
  rw [hmiss] at hstored
  cases hstored

theorem session_right (hl : WellFormed l) (h₀ : 0 ≤ range_min) (hle : range_min ≤ top)
    (hmiss : (getRangeWork l range_min top).2 = false)
    (hstart : t.Starts l (getRangeWork l range_min top).1) (hhit : t.hit = false) {R : Int → Char}
    {file : Str} (hholds : Holds id R (Placed l) file) :
    (t.session range_min).Right R (planEnd l range_min top) file := by
  obtain ⟨htiles, hblocks, -⟩ := getRangeWork_spec hl.toStoredList h₀ hle
  have hlacks := hstart.lacks hl h₀ hle hmiss
  exact .receiving ⟨hhit, hstart.miss2hit⟩
    (hstart.receiving hl hholds h₀ (lt_planEnd hle) htiles hblocks) hstart.filesended.symm hlacks

theorem session_void {plan : LintervalPositionByteDisk} (hplan : VoidPlan plan)
    (hstart : t.Starts l plan) (hhit : t.hit = false) {R : Int → Char} {file : Str}
    (hholds : Holds id R (Placed l) file) : (t.session range_min).Void R file := by
  refine .waits ⟨hhit, hstart.miss2hit⟩ hstart.isOpen ?_ hstart.acumulate
    (hholds.mono fun n p hn => (placed_perm hstart.lranges).mp hn)
  rwa [Transfer.session, Transfer.lrangeswork, hstart.passed, hstart.brange, List.nil_append]

/-- The first byte of a body is written at the first block of the plan. -/
theorem readMiss_first {db : Db} {now : Int} {file : Str} {c : Char} {part : BodyPart}
    {cur : IntervalPositionByteDisk} {rest : LintervalPositionByteDisk} (hisOpen : t.isOpen = false)
    (hwork : t.lrangeswork = cur :: rest) (hpos : 0 ≤ cur.position) (hle : cur.a ≤ cur.b)
    (hcall : readMiss db now t file (some [c]) = some part) :
    part.file = writeAt '\x00' file cur.position.toNat [c] := by
  have hstored : ¬ cur.position < 0 := Int.not_lt.mpr hpos
  simp only [readMiss, hisOpen, Bool.false_eq_true, if_false, openMiss, hwork, enterBlock, hstored,
    decide_false, Option.bind_some, List.tail_cons] at hcall
  unfold writeLoop at hcall
  simp only [List.length_singleton] at hcall
  rw [if_neg (by omega), Option.bind_some] at hcall
  exact writeTail_written hcall

/-- A call stores what it has received, and `Update` after it. -/
theorem MissSpec.stored {β : Type} {view : Char → β} {R : Int → β} {e : Int} {d : Str}
    {part : BodyPart} (h : MissSpec view R range_min e t d part) :
    (∀ n p, Placed part.t.lranges n p → Placed (appendCurrent part.t).lranges n p) ∧
      ∀ n, range_min ≤ n → n < e → n < range_min + t.filesended + d.length →
        n ∈ storedBytes (appendCurrent part.t).lranges := by
  cases h with
  | inside value isOpen inside faithful sent =>
    obtain ⟨hgrows, -, hcovered⟩ := appendCurrent_inside inside faithful
    exact ⟨fun n p => hgrows.placed inside.wellFormed, fun n hn _ hn' => hcovered n hn (by omega)⟩
  | complete value between done faithful sent whole =>
    rw [appendCurrent_settled (.inl between.acumulate)]
    exact ⟨fun n p hn => hn, fun n hn _ hn' => between.covered n hn (by omega)⟩
  | failed value wellFormed acumulate faithful reason sent covered =>
    rw [appendCurrent_settled (.inl acumulate)]
    exact ⟨fun n p hn => hn, covered⟩

/-- There is a file with the bytes of a resource at their places. -/
theorem exists_file (hl : WellFormed l) (R : Int → Char) :
    ∃ file : Str, Faithful (Placed l) R file := by
  refine exists_faithful R 'x' (fun n m p hn hm => (hn.inj hl hm).mpr rfl)
    (e := (getPointEnd l).toNat) fun n p hn => ?_
  have := hn.lt_getPointEnd hl
  omega

/-- The first piece of a body, a single byte. -/
theorem session_piece {R : Int → Char} {file : Str} {c : Char} {part : BodyPart} (hR : R start = c)
    (hcall : readBodyPart succeeds 0 t file (some [c]) = some part) :
    Running.Step R start (t.session range_min, file)
      ({ t.session range_min with
          t := part.t, received := 0 + ([c] : Str).length
          ended := decide (part.BodyLength = -1) }, part.file) := by
  refine .piece succeeds 0 [c] part rfl (List.cons_ne_nil c []) (fun i hi => ?_) hcall
  obtain rfl : i = 0 := by simpa using hi
  have hzero : start + (t.session range_min).received + ((0 : Nat) : Int) = start := by
    simp only [Transfer.session]
    omega
  rw [hzero, hR]
  rfl

/-- A first byte that is stored already is written over at its place. -/
theorem readMiss_overwrites {db : Db} {now : Int} {file : Str} {c : Char} {part : BodyPart} {p : Int}
    (hl : WellFormed l) (h₀ : 0 ≤ range_min) (hle : range_min ≤ top)
    (hstart : t.Starts l (getRangeWork l range_min top).1) (hp : Placed l range_min p)
    (hcall : readMiss db now t file (some [c]) = some part) : cell part.file p = some c := by
  obtain ⟨htiles, hblocks, -⟩ := getRangeWork_spec hl.toStoredList h₀ hle
  obtain ⟨cur, rest, hplan⟩ : ∃ cur rest, (getRangeWork l range_min top).1 = cur :: rest := by
    refine List.exists_cons_of_ne_nil fun hnil => ?_
    rw [hnil] at htiles
    exact (lt_planEnd hle).ne htiles
  rw [hplan] at htiles hblocks
  have hfirst := htiles.1
  have hin : InStored l cur := by
    refine (hblocks cur List.mem_cons_self).resolve_left fun hm => ?_
    exact hm.2 range_min hfirst.le (hfirst ▸ htiles.2.1) hp.stored
  have hplaced : Placed l range_min cur.position := by
    have hplaced := hin.placed hfirst.le (hfirst ▸ htiles.2.1)
    rwa [show cur.position + (range_min - cur.a) = cur.position by omega] at hplaced
  have hwork : t.lrangeswork = cur :: rest := by
    rw [Transfer.lrangeswork, hstart.passed, hstart.brange, hplan, List.nil_append]
  have hnonneg := hin.position_nonneg hl.toStoredList
  have hwritten := readMiss_first hstart.isOpen hwork hnonneg htiles.2.1 hcall
  have hin₀ : cell (writeAt '\x00' file cur.position.toNat [c])
      (cur.position.toNat + ((0 : Nat) : ℤ)) = [c][0]? :=
    cell_writeAt_in Nat.zero_lt_one
  have hoffset : (cur.position.toNat : Int) + ((0 : Nat) : Int) = p := by
    have hsame := (hplaced.inj hl hp).mp rfl
    omega
  rw [hoffset] at hin₀
  rw [hwritten, hin₀]
  rfl

/-- A first byte that is new lies where the session has put it. -/
theorem session_stores {R : Int → Char} {file : Str} {c : Char} {part : BodyPart} {p : Int}
    (hl : WellFormed l) (h₀ : 0 ≤ range_min) (hle : range_min ≤ top)
    (hmiss : (getRangeWork l range_min top).2 = false)
    (hstart : t.Starts l (getRangeWork l range_min top).1) (hhit : t.hit = false)
    (hholds : Holds id R (Placed l) file) (hnew : range_min ∉ storedBytes l)
    (hcall : readBodyPart succeeds 0 t file (some [c]) = some part)
    (hp : Placed (appendCurrent part.t).lranges range_min p) : cell part.file p = some c := by
  -- the resource could have this byte there
  let R' : Int → Char := fun n => if n = range_min then c else R n
  have hholds' : Holds id R' (Placed l) file := by
    intro n p hn
    have hn' : n ≠ range_min := by
      rintro rfl
      exact hnew hn.stored
    rw [hholds n p hn]
    exact congrArg some (if_neg hn').symm
  have hright := ((session_right hl h₀ hle hmiss hstart hhit hholds').step
    (session_piece (if_pos rfl) hcall)).1.recordsRight
  have hcell := hright _ _ hp
  rw [List.map_id] at hcell
  rw [hcell]
  exact congrArg some (if_pos rfl)

/-- A response that starts elsewhere can be stored wrongly. -/
theorem session_wrong (hl : WellFormed l) (h₀ : 0 ≤ range_min) (hle : range_min ≤ top)
    (hmiss : (getRangeWork l range_min top).2 = false)
    (hstart : t.Starts l (getRangeWork l range_min top).1) (hhit : t.hit = false)
    (hne : range_min ≠ start) :
    ∃ (R : Int → Char) (file : Str) (x : Running × Str), Holds id R (Placed l) file ∧
      Run (Running.Step R start) (t.session range_min, file) x ∧ ¬ RecordsRight R x := by
  obtain ⟨htiles, hblocks, -⟩ := getRangeWork_spec hl.toStoredList h₀ hle
  -- the byte that the server sends first differs from all others
  let R : Int → Char := fun n => if n = start then 'y' else 'x'
  obtain ⟨file, hfile⟩ := exists_file hl R
  have hholds : Holds id R (Placed l) file := by
    rw [Holds, List.map_id]
    exact hfile
  have hunit : Holds (fun _ => ()) (fun _ => ()) (Placed l) file := hfile.map fun _ => ()
  obtain ⟨part, hcall, hspec, hgrows⟩ := readMiss_spec succeeds 0
    (hstart.receiving hl hunit h₀ (lt_planEnd hle) htiles hblocks) (List.cons_ne_nil 'y' [])
    (carries_unit _ _)
  have hcall' : readBodyPart succeeds 0 t file (some ['y']) = some part := by
    rw [readBodyPart, if_neg (by simp [hhit, hstart.miss2hit])]
    exact hcall
  refine ⟨R, file, _, hholds, .single (session_piece (if_pos rfl) hcall'), fun hright => ?_⟩
  obtain ⟨happended, hcovered⟩ := hspec.stored
  obtain ⟨p, hp, hcell⟩ : ∃ p, Placed (appendCurrent part.t).lranges range_min p ∧
      cell part.file p = some 'y' := by
    by_cases hold : range_min ∈ storedBytes l
    · obtain ⟨p, hp⟩ := exists_placed hold
      have hwf : WellFormed t.lranges := hl.perm hstart.lranges.symm
      exact ⟨p, happended _ _ (hgrows.placed hwf ((placed_perm hstart.lranges).mpr hp)),
        readMiss_overwrites hl h₀ hle hstart hp hcall⟩
    · have hmem : range_min ∈ storedBytes (appendCurrent part.t).lranges := by
        have hsent := hstart.filesended
        refine hcovered range_min le_rfl (lt_planEnd hle) ?_
        rw [hsent, List.length_singleton]
        omega
      obtain ⟨p, hp⟩ := exists_placed hmem
      exact ⟨p, hp, session_stores hl h₀ hle hmiss hstart hhit hholds hold hcall' hp⟩
  have hother : R range_min = 'x' := if_neg hne
  have hx := hright _ _ hp
  rw [List.map_id, hcell, hother] at hx
  cases hx

/-- **What a miss records is right** exactly when the response starts where the plan does, or when the
plan holds no byte. -/
theorem session_right_iff {plan : LintervalPositionByteDisk} (hl : WellFormed l) (h₀ : 0 ≤ range_min)
    (hplan : plan = [] ∨ ∃ top, (plan, false) = getRangeWork l range_min top)
    (hstart : t.Starts l plan) (hhit : t.hit = false) :
    (∀ (R : Int → Char) (file : Str) (x : Running × Str), Holds id R (Placed l) file →
      Run (Running.Step R start) (t.session range_min, file) x → RecordsRight R x) ↔
      start = range_min ∨ ∀ w ∈ plan, w.b < w.a := by
  have hvoid : VoidPlan plan → ∀ (R : Int → Char) (file : Str) (x : Running × Str),
      Holds id R (Placed l) file → Run (Running.Step R start) (t.session range_min, file) x →
      RecordsRight R x := by
    intro hvoid R file x hholds hrun
    have hinv := run_invariant (P := fun x : Running × Str => x.1.Void R x.2)
      (fun x y hx hstep => hx.step hstep) hrun (session_void hvoid hstart hhit hholds)
    exact hinv.recordsRight
  rcases hplan with rfl | ⟨top, hwork⟩
  · exact iff_of_true (hvoid (.inl rfl)) (.inr nofun)
  · obtain ⟨rfl, hmiss⟩ : plan = (getRangeWork l range_min top).1 ∧
        (getRangeWork l range_min top).2 = false := by
      rw [← hwork]
      exact ⟨rfl, rfl⟩
    by_cases hle : range_min ≤ top
    · obtain ⟨htiles, -, -⟩ := getRangeWork_spec hl.toStoredList h₀ hle
      have hbyte : ¬ ∀ w ∈ (getRangeWork l range_min top).1, w.b < w.a := by
        intro hempty
        obtain ⟨w, hw, hwa, hwb⟩ := htiles.mem_covered_iff.mpr ⟨le_rfl, lt_planEnd hle⟩
        have := hempty w hw
        omega
      rw [or_iff_left hbyte]
      constructor
      · intro hall
        by_contra hne
        obtain ⟨R, file, x, hholds, hrun, hwrong⟩ :=
          session_wrong hl h₀ hle hmiss hstart hhit (Ne.symm hne)
        exact hwrong (hall R file x hholds hrun)
      · rintro rfl R file x hholds hrun
        have hinv := run_invariant (P := fun x : Running × Str =>
            x.1.Right R (planEnd l start top) x.2 ∧ x.1.range_min = start)
          (fun x y hx hstep => by
            obtain ⟨hright, hkept⟩ := hx.1.step (hx.2.symm ▸ hstep)
            exact ⟨hright, hkept.trans hx.2⟩)
          hrun ⟨session_right hl h₀ hle hmiss hstart hhit hholds, rfl⟩
        exact hinv.1.recordsRight
    · have hbefore := getRangeWork_before hl.toStoredList h₀ (not_le.mp hle) hmiss
      rw [hbefore] at hvoid ⊢
      refine iff_of_true (hvoid (.inr ⟨_, rfl, not_le.mp hle, (by decide : (-1 : Int) < 0)⟩)) (.inr ?_)
      rintro w hw
      rw [List.mem_singleton.mp hw]
      exact not_le.mp hle

end Start

end Haarp
