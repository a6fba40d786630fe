import Haarp.Cache.Progress

/-!
# What a read preserves

A session that reads from the cache file stands inside a block of its plan, like one that writes
(`Inside`), and every block from there on is stored (`Serving`). `readHit_spec` says what one call
comes to: it delivers the next bytes of the resource, and only a plan that does not hold the
`filesizeneto` bytes of the response makes it fail.
-/

namespace Haarp

open Base

/-- A session that reads from the cache file, inside a block of a plan that is stored from there
on. -/
structure Serving {β : Type} (view : Char → β) (R : Int → β) (range_min e : Int) (t : Transfer)
    (cur : IntervalPositionByteDisk) (rest : LintervalPositionByteDisk) (file : Str) : Prop where
  inside : Inside range_min e t cur rest
  bwrite : t.bwrite = false
  stored : ∀ w ∈ rest, Located t.lranges w
  isOpen : t.isOpen = true
  failed : t.failed = false
  holds : Holds view R (Placed t.lranges) file

/-- What a call that reads comes to. -/
inductive HitSpec {β : Type} (view : Char → β) (R : Int → β) (range_min e : Int) (t : Transfer)
    (file : Str) (part : BodyPart) : Prop
  | inside {cur : IntervalPositionByteDisk} {rest : LintervalPositionByteDisk}
      (value : part.BodyLength = part.bodyT.length) (positive : 0 < part.BodyLength)
      (carries : Carries view R (range_min + t.filesended) part.bodyT)
      (serving : Serving view R range_min e part.t cur rest file)
      (sent : part.t.filesended = t.filesended + part.BodyLength)
  | complete (value : part.BodyLength = part.bodyT.length) (positive : 0 < part.BodyLength)
      (carries : Carries view R (range_min + t.filesended) part.bodyT) (done : part.t.brange = [])
      (bwrite : part.t.bwrite = false) (sent : part.t.filesended = t.filesended + part.BodyLength)
      (covered : ∀ n, range_min ≤ n → n < e → n ∈ storedBytes part.t.lranges)
      (whole : part.t.filesended = t.filesizeneto ∧ range_min + t.filesizeneto = e)
  | failed (value : part.BodyLength = -1) (reason : e - range_min ≠ t.filesizeneto)

section Reading

variable {β : Type} {view : Char → β} {R : Int → β} {range_min e : Int} {t : Transfer}
  {cur : IntervalPositionByteDisk} {rest : LintervalPositionByteDisk} {file : Str}

/-- The bytes of the current block that are still to come lie in the file. -/
theorem Serving.cells (h : Serving view R range_min e t cur rest file) {i : Int} (hi : 0 ≤ i)
    (hi' : t.acumulate + i < t.limit) :
    cell (file.map view) (t.offset + i) = some (R (range_min + t.filesended + i)) := by
  have hlim := h.inside.limit
  have hnext := h.inside.next
  have hoff := h.inside.offset
  have hacc := h.inside.acumulate
  have hplaced := (h.inside.located h.bwrite).2 (cur.a + t.acumulate + i) (by omega) (by omega)
  have hcell := h.holds _ _ hplaced
  rwa [show cur.position + (cur.a + t.acumulate + i - cur.a) = t.offset + i by omega,
    show cur.a + t.acumulate + i = range_min + t.filesended + i by omega] at hcell

/-- A read returns as many bytes as it asks for, and they are the next ones. -/
theorem readBytes_serving (h : Serving view R range_min e t cur rest file) :
    ∃ d, readBytes t file = (d, { t with offset := t.offset + d.length }) ∧ d ≠ [] ∧
      t.acumulate + d.length ≤ t.limit ∧ Carries view R (range_min + t.filesended) d := by
  have hacc := h.inside.acumulate
  have hoff := h.inside.offset
  have hpos := h.inside.position_nonneg
  unfold readBytes MAXRECV
  simp only [h.failed, Bool.false_eq_true, if_false, false_or]
  generalize hbuf : (if t.acumulate + 14600 > t.limit then t.limit - t.acumulate else 14600) = tbuffer
  have htb : 0 < tbuffer ∧ t.acumulate + tbuffer ≤ t.limit := by
    rw [← hbuf]
    split <;> omega
  have hlast := lt_length_of_cell (h.cells (i := tbuffer - 1) (by omega) (by omega))
  rw [List.length_map] at hlast
  have hlen : (readAt file t.offset.toNat tbuffer.toNat).length = tbuffer.toNat :=
    length_readAt (by omega)
  refine ⟨readAt file t.offset.toNat tbuffer.toNat, ?_, ?_, ?_, ?_⟩
  · rw [decide_eq_false (by omega)]
  · intro hnil
    rw [hnil] at hlen
    simp only [List.length_nil] at hlen
    omega
  · rw [hlen]
    omega
  · intro i hi
    rw [hlen] at hi
    have hcell := (cell_eq_some.mp (h.cells (i := i) (by omega) (by omega))).2
    rw [show (t.offset + i).toNat = t.offset.toNat + i by omega] at hcell
    rw [List.getElem?_map, getElem?_readAt hi, ← List.getElem?_map, hcell]

/-- The bytes up to the end of the current block are stored. -/
theorem Serving.covered (h : Serving view R range_min e t cur rest file) {n : Int}
    (hn : range_min ≤ n) (hn' : n ≤ cur.b) : n ∈ storedBytes t.lranges := by
  by_cases hna : n < cur.a
  · exact h.inside.covered n hn hna
  · exact ((h.inside.located h.bwrite).2 n (by omega) hn').stored

/-- From the end of a block on, the next one is served. -/
theorem Serving.next {w : IntervalPositionByteDisk} {k now : Int}
    (h : Serving view R range_min e t cur (w :: rest) file) (hfull : t.acumulate + k = t.limit) :
    Serving view R range_min e { t with
      filesended := t.filesended + k, acumulate := 0, timerecord := now, passed := t.passed ++ [cur]
      brange := w :: rest, offset := w.position, limit := w.b - w.a + 1 } w rest file := by
  have hins := h.inside
  have hacc := hins.acumulate
  have hlim := hins.limit
  have hnext := hins.next
  have hstart := hins.start
  obtain ⟨-, -, htiles⟩ := hins.tiles
  have hwa := htiles.1
  have hwab := htiles.2.1
  have hloc := h.stored w List.mem_cons_self
  refine ⟨⟨hins.wellFormed, rfl, ⟨rfl, htiles.2⟩,
    fun v hv => hins.todo v (List.mem_cons_of_mem w hv), ?_, fun _ => hloc, rfl, ?_, ?_, ?_, ?_, ?_,
    ?_⟩, h.bwrite, fun v hv => h.stored v (List.mem_cons_of_mem w hv), h.isOpen, h.failed, h.holds⟩
  · intro hb
    exact absurd h.bwrite (by rw [show t.bwrite = true from hb]; decide)
  · simp only
    omega
  · simp only
    omega
  · simp only
    omega
  · omega
  · exact fun n hn hn' => h.covered hn (by omega)
  · exact fun _ => ⟨h.bwrite, fun v hv => (h.stored v (List.mem_cons_of_mem w hv)).1⟩

/-- The state after a read of `d` inside the current block, or at its end. -/
theorem advance_serving (now : Int) (h : Serving view R range_min e t cur rest file) {d : Str}
    (hne : d ≠ []) (hfit : t.acumulate + d.length ≤ t.limit) :
    let t' := advance now { t with offset := t.offset + d.length } d.length
    t'.filesended = t.filesended + d.length ∧
      ((∃ cur' rest', Serving view R range_min e t' cur' rest' file) ∨
        (t'.brange = [] ∧ t'.bwrite = false ∧ range_min + t'.filesended = e ∧
          ∀ n, range_min ≤ n → n < e → n ∈ storedBytes t.lranges)) := by
  have hlen := List.length_pos_iff.mpr hne
  have hins := h.inside
  have hacc := hins.acumulate
  have hlim := hins.limit
  have hnext := hins.next
  have hoff := hins.offset
  simp only [advance, hins.brange]
  by_cases hfull : t.acumulate + d.length = t.limit
  · rw [if_pos hfull]
    cases rest with
    | nil =>
      have htiles := hins.tiles
      have hlast : cur.b + 1 = e := htiles.2.2
      refine ⟨rfl, .inr ⟨rfl, h.bwrite, ?_, ?_⟩⟩
      · simp only
        omega
      · exact fun n hn hn' => h.covered hn (by omega)
    | cons w rest => exact ⟨rfl, .inl ⟨w, rest, h.next hfull⟩⟩
  · rw [if_neg hfull]
    refine ⟨rfl, .inl ⟨cur, rest, ?_⟩⟩
    exact { h with
      inside := { hins with
        brange := rfl
        acumulate := ⟨by simp only; omega, by simp only; omega⟩
        next := by simp only; omega
        offset := by simp only; omega } }

/-- **What one call that reads does.** -/
theorem readHit_spec (db : Db) (now : Int) (h : Serving view R range_min e t cur rest file) :
    ∃ part, readHit db now t file = some part ∧ HitSpec view R range_min e t file part := by
  obtain ⟨d, hread, hne, hfit, hcarries⟩ := readBytes_serving h
  obtain ⟨hsent, hnext⟩ := advance_serving now h hne hfit
  have hlen := List.length_pos_iff.mpr hne
  have hempty : d.isEmpty = false := by simpa using hne
  have hblock : readBlock now t file =
      (d, advance now { t with offset := t.offset + d.length } d.length) := by
    simp only [readBlock, hread, hempty, Bool.false_eq_true, if_false]
  have hopen : (if t.isOpen then some t else openHit now t) = some t := if_pos h.isOpen
  have hreads := readBlock_reads now t file
  unfold readHit
  rw [hopen, Option.map_some, if_neg (by simp [h.isOpen])]
  rw [hblock] at hreads ⊢
  generalize advance now _ _ = t' at hreads hsent hnext ⊢
  have hneto := hreads.filesizeneto
  have hl := hreads.lranges
  simp only [hempty, Bool.false_eq_true, false_and, not_false_eq_true, true_and, or_false] at hneto hl ⊢
  refine ⟨_, rfl, ?_⟩
  rcases hnext with ⟨cur', rest', hserving⟩ | ⟨hnil, hbw, hend, hcovered⟩
  · have hbrange := hserving.inside.brange
    have hmore := hserving.inside.more
    have hcons : t'.brange.isEmpty = false := by rw [hbrange]; rfl
    rw [hcons]
    simp only [Bool.false_eq_true, false_and, if_false, false_or]
    by_cases hsize : t'.filesended = t'.filesizeneto
    · rw [if_pos hsize]
      exact .failed rfl (by omega)
    · rw [if_neg hsize]
      exact .inside rfl (by simp only; omega) hcarries hserving hsent
  · have hnone : t'.brange.isEmpty = true := by rw [hnil]; rfl
    rw [hnone]
    simp only [true_and, true_or, if_true]
    by_cases hsize : t'.filesended = t'.filesizeneto
    · rw [if_pos hsize]
      exact .complete rfl (by simp only; omega) hcarries hnil hbw hsent (hl ▸ hcovered)
        ⟨hsize.trans hneto, by omega⟩
    · rw [if_neg hsize]
      exact .failed rfl (by omega)

end Reading

end Haarp
