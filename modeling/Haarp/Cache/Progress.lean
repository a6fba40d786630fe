import Haarp.Cache.Frame
import Haarp.Utils.Append

/-!
# What a piece preserves

A session stands either between two blocks of its plan (`Between`) or inside one (`Inside`). In both
cases the plan from `brange` on tiles the bytes still to come, each of its blocks is missing or lies
where the list of stored blocks says, and everything before is stored. Inside a block that is being
stored (`bwrite`) the bytes received so far already lie in the file, at the end of what the list
says; `Laid` is the layout of the file that counts them in.

The lemmas follow the functions of the writer: each says what it preserves and how the list grows.
`readMiss_spec` puts them together for one call.
-/

namespace Haarp

open Base

/-! ## Planned blocks -/

/-- Every byte of the block lies in the file where the block says. -/
def Located (l : LintervalPositionByteDisk) (w : IntervalPositionByteDisk) : Prop :=
  0 ≤ w.position ∧ ∀ n, w.a ≤ n → n ≤ w.b → Placed l n (w.position + (n - w.a))

/-- A block of the plan: not stored at all, or stored where it says. -/
def Todo (l : LintervalPositionByteDisk) (w : IntervalPositionByteDisk) : Prop :=
  (w.position < 0 ∧ ∀ n, w.a ≤ n → n ≤ w.b → n ∉ storedBytes l) ∨ Located l w

section Planned

variable {l : LintervalPositionByteDisk} {w : IntervalPositionByteDisk}

theorem InStored.located (hl : StoredList l) (h : InStored l w) : Located l w :=
  ⟨h.position_nonneg hl, fun _ => h.placed⟩

theorem Missing.todo (h : Missing l w) : Todo l w := by
  refine .inl ⟨?_, h.2⟩
  rw [h.1]
  decide

theorem Located.appendNode (hl : StoredList l) {v : IntervalPositionByteDisk} (hv : Fresh l v)
    (h : Located l w) : Located (appendNode l v) w :=
  ⟨h.1, fun n hn hn' => (placed_appendNode hl hv).mpr (.inl (h.2 n hn hn'))⟩

/-- The blocks behind an appended one stay as planned. -/
theorem Todo.appendNode (hl : StoredList l) {v : IntervalPositionByteDisk} (hv : Fresh l v)
    (hlt : v.b < w.a) (h : Todo l w) : Todo (appendNode l v) w := by
  rcases h with ⟨hneg, hfree⟩ | h
  · refine .inl ⟨hneg, fun n hn hn' hst => ?_⟩
    rcases (mem_storedBytes_appendNode hl hv).mp hst with hst | ⟨-, hle⟩
    · exact hfree n hn hn' hst
    · omega
  · exact .inr (h.appendNode hl hv)

end Planned

/-! ## Pieces of the resource

The resource is what a view `view` shows of its bytes: all of a byte, or nothing of it where only
matters that a byte is there. -/

section Resource

variable {β : Type} (view : Char → β) (R : Int → β)

/-- The piece shows the bytes of the resource from byte `n` on. -/
def Carries (n : Int) (d : Str) : Prop := ∀ i < d.length, (d.map view)[i]? = some (R (n + i))

/-- What lies somewhere in the layout is found in the file. -/
abbrev Holds (L : Int → Int → Prop) (file : Str) : Prop := Faithful L R (file.map view)

variable {view R} {n : Int} {d : Str}

/-- Where nothing of a byte matters, every piece carries the resource. -/
theorem carries_unit (n : Int) (d : Str) : Carries (fun _ => ()) (fun _ => ()) n d := by
  intro i hi
  rw [List.getElem?_map, List.getElem?_eq_getElem hi]
  rfl

theorem Carries.take (h : Carries view R n d) (k : Nat) : Carries view R n (d.take k) := by
  intro i hi
  rw [List.length_take] at hi
  rw [List.map_take, List.getElem?_take, if_pos (by omega)]
  exact h i (by omega)

theorem Carries.drop (h : Carries view R n d) (k : Nat) : Carries view R (n + k) (d.drop k) := by
  intro i hi
  rw [List.length_drop] at hi
  rw [List.map_drop, List.getElem?_drop, h (k + i) (by omega)]
  congr 2
  push_cast
  omega

end Resource

/-! ## The states of a session -/

/-- The layout of the cache file: the stored blocks and, while the block `cur` is being stored, its
first `k` bytes. -/
def Laid (l : LintervalPositionByteDisk) (bwrite : Bool) (cur : IntervalPositionByteDisk) (k n p : Int) :
    Prop :=
  Placed l n p ∨ (bwrite = true ∧ cur.a ≤ n ∧ n < cur.a + k ∧ p = cur.position + (n - cur.a))

/-- Between two blocks: the plan from `brange` on holds the bytes still to come, up to `e`. -/
structure Between (range_min e : Int) (t : Transfer) : Prop where
  wellFormed : WellFormed t.lranges
  tiles : TilesBytes (range_min + t.filesended) t.brange e
  todo : ∀ w ∈ t.brange, Todo t.lranges w
  acumulate : t.acumulate = 0
  start : 0 ≤ range_min ∧ 0 ≤ t.filesended
  covered : ∀ n, range_min ≤ n → n < range_min + t.filesended → n ∈ storedBytes t.lranges
  turned : t.miss2hit = true → ∀ w ∈ t.brange, 0 ≤ w.position

/-- Inside the block `cur`, with `acumulate` of its bytes passed. -/
structure Inside (range_min e : Int) (t : Transfer) (cur : IntervalPositionByteDisk)
    (rest : LintervalPositionByteDisk) : Prop where
  wellFormed : WellFormed t.lranges
  brange : t.brange = cur :: rest
  tiles : TilesBytes cur.a (cur :: rest) e
  todo : ∀ w ∈ rest, Todo t.lranges w
  fresh : t.bwrite = true → Fresh t.lranges cur
  located : t.bwrite = false → Located t.lranges cur
  limit : t.limit = cur.b - cur.a + 1
  acumulate : 0 ≤ t.acumulate ∧ t.acumulate < t.limit
  next : cur.a + t.acumulate = range_min + t.filesended
  offset : t.offset = cur.position + t.acumulate
  start : 0 ≤ range_min ∧ range_min ≤ cur.a
  covered : ∀ n, range_min ≤ n → n < cur.a → n ∈ storedBytes t.lranges
  turned : t.miss2hit = true → t.bwrite = false ∧ ∀ w ∈ rest, 0 ≤ w.position

section Writing

variable {β : Type} {view : Char → β} {R : Int → β} {range_min e : Int} {t : Transfer}
  {cur : IntervalPositionByteDisk} {rest : LintervalPositionByteDisk} {file : Str}

theorem laid_zero {l : LintervalPositionByteDisk} {bwrite : Bool} {n p : Int} :
    Laid l bwrite cur 0 n p ↔ Placed l n p := by
  simp only [Laid, or_iff_left_iff_imp]
  omega

/-- What is laid out of the current block stays in place when it is stored, whole or in part. -/
theorem holds_appendNode {l : LintervalPositionByteDisk} {w : IntervalPositionByteDisk} {k : Int}
    (hl : StoredList l) (hw : Fresh l w) (ha : w.a = cur.a) (hposition : w.position = cur.position)
    (hb : w.b < cur.a + k) (hf : Holds view R (Laid l true cur k) file) :
    Holds view R (Placed (appendNode l w)) file := by
  apply hf.mono
  intro n p hn
  rcases (placed_appendNode hl hw).mp hn with hn | ⟨hna, hnb, hp⟩
  · exact .inl hn
  · rw [ha] at hna hp
    rw [hposition] at hp
    exact .inr ⟨rfl, hna, by omega, hp⟩

theorem Inside.position_nonneg (h : Inside range_min e t cur rest) : 0 ≤ cur.position := by
  cases hb : t.bwrite with
  | true => exact (h.fresh hb).position ▸ getPointEnd_nonneg h.wellFormed
  | false => exact (h.located hb).1

/-- Bytes of the plan are still to come. -/
theorem Inside.more (h : Inside range_min e t cur rest) : range_min + t.filesended < e := by
  have hnext := h.next
  have hacc := h.acumulate
  have hlim := h.limit
  have hle := h.tiles.2.2.le
  omega

/-! ## Entering and leaving a block -/

/-- A block of the plan is entered at its first byte. -/
theorem enterBlock_inside (h : Between range_min e t) (hne : t.brange ≠ []) :
    ∃ t' cur rest, enterBlock t = some t' ∧ Inside range_min e t' cur rest ∧
      t.brange.tail = rest ∧ t'.acumulate = 0 ∧ t'.lranges = t.lranges ∧
      t'.filesended = t.filesended ∧ t'.isOpen = t.isOpen := by
  obtain ⟨w, rest, hb⟩ := List.exists_cons_of_ne_nil hne
  have htiles := h.tiles
  rw [hb] at htiles
  have hle := htiles.2.1
  have htodo := h.todo w (by simp [hb])
  have hrest : ∀ v ∈ rest, Todo t.lranges v := fun v hv => h.todo v (by simp [hb, hv])
  have hturned : t.miss2hit = true → 0 ≤ w.position ∧ ∀ v ∈ rest, 0 ≤ v.position := by
    intro hm
    exact ⟨h.turned hm w (by simp [hb]), fun v hv => h.turned hm v (by simp [hb, hv])⟩
  have hstart := h.start
  have hwa := htiles.1
  simp only [enterBlock, hb, List.tail_cons]
  by_cases hneg : w.position < 0
  · refine ⟨_, { w with position := getPointEnd t.lranges }, rest, rfl, ?_, rfl, h.acumulate, rfl,
      rfl, rfl⟩
    have hfree := (htodo.resolve_right fun hl => absurd hl.1 (by omega)).2
    refine ⟨h.wellFormed, by simp [hneg], ⟨rfl, hle, htiles.2.2⟩, hrest, ?_, ?_, ?_, ?_, ?_, ?_, ?_,
      ?_, ?_⟩
    · exact fun _ => ⟨by simp only; omega, hle, rfl, hfree⟩
    · simp [hneg]
    · simp [hneg]
    · simp only [h.acumulate, hneg, decide_true, if_true]
      omega
    · simp only [h.acumulate]
      omega
    · simp only [h.acumulate, hneg, decide_true, if_true]
      omega
    · simp only
      omega
    · exact fun n hn hn' => h.covered n hn (by simp only at hn'; omega)
    · intro hm
      exact absurd (hturned hm).1 (by omega)
  · refine ⟨_, w, rest, rfl, ?_, rfl, h.acumulate, rfl, rfl, rfl⟩
    have hloc := htodo.resolve_left fun hm => hneg hm.1
    refine ⟨h.wellFormed, by simp [hneg], ⟨rfl, hle, htiles.2.2⟩, hrest, ?_, ?_, ?_, ?_, ?_, ?_, ?_,
      ?_, ?_⟩
    · simp [hneg]
    · exact fun _ => hloc
    · simp [hneg]
    · simp only [h.acumulate, hneg, decide_false, Bool.false_eq_true, if_false]
      omega
    · simp only [h.acumulate]
      omega
    · simp only [h.acumulate, hneg, decide_false, Bool.false_eq_true, if_false]
      omega
    · omega
    · exact fun n hn hn' => h.covered n hn (by omega)
    · exact fun hm => ⟨by simp [hneg], (hturned hm).2⟩

/-- The bytes written inside the current block lie where the layout says. -/
theorem faithful_writeBytes (h : Inside range_min e t cur rest) {d : Str}
    (hd : Carries view R (range_min + t.filesended) d) (hfit : t.acumulate + d.length ≤ t.limit)
    (hf : Holds view R (Laid t.lranges t.bwrite cur t.acumulate) file) :
    Holds view R (Laid t.lranges t.bwrite cur (t.acumulate + d.length))
      (writeAt '\x00' file t.offset.toNat d) := by
  have hpos := h.position_nonneg
  have hoff := h.offset
  have hacc := h.acumulate
  have hnext := h.next
  have hlim := h.limit
  rw [Holds, map_writeAt]
  apply faithful_writeAt <;> simp only [List.length_map]
  · rintro n p (hn | ⟨hb, hna, hnk, hp⟩) hout
    · exact hf n p (.inl hn)
    · exact hf n p (.inr ⟨hb, hna, by omega, hp⟩)
  · rintro n i hi hn
    rw [hd i hi]
    -- the byte at the written offset is the one the piece holds there
    suffices hni : n = range_min + t.filesended + i by rw [hni]
    rcases hn with hn | ⟨-, hna, -, hp⟩
    · cases hb : t.bwrite with
      | true =>
        have hend := (hn.lt_getPointEnd h.wellFormed).2
        rw [← (h.fresh hb).position] at hend
        omega
      | false =>
        have hplaced := (h.located hb).2 (cur.a + t.acumulate + i) (by omega) (by omega)
        have := (hn.inj h.wellFormed hplaced).mpr (by omega)
        omega
    · omega

/-- A block whose last byte is written is left, and stored if it was not. -/
theorem leaveBlock_between (h : Inside range_min e t cur rest)
    (hf : Holds view R (Laid t.lranges t.bwrite cur t.limit) file) (o k : Int) :
    let t' := leaveBlock
      { t with offset := o, acumulate := k, filesended := t.filesended + (t.limit - t.acumulate) }
    Between range_min e t' ∧ Holds view R (Placed t'.lranges) file ∧
      Grows range_min (range_min + t'.filesended) t.lranges t'.lranges ∧
      t'.brange = rest ∧ t'.isOpen = t.isOpen ∧
      t'.filesended = t.filesended + (t.limit - t.acumulate) := by
  have hlim := h.limit
  have hnext := h.next
  have hstart := h.start
  have hacc := h.acumulate
  have htiles := h.tiles.2.2
  have hend : range_min + (t.filesended + (t.limit - t.acumulate)) = cur.b + 1 := by omega
  rcases Bool.eq_false_or_eq_true t.bwrite with hbw | hbw
  · have hfresh := h.fresh hbw
    have hleave : leaveBlock { t with
        offset := o, acumulate := k, filesended := t.filesended + (t.limit - t.acumulate) } =
        { t with
          offset := o, passed := t.passed ++ [cur], brange := rest, acumulate := 0, np := t.np + 1
          filesended := t.filesended + (t.limit - t.acumulate)
          lranges := appendNode t.lranges cur } := by
      simp only [leaveBlock, h.brange, hbw, if_true]
    rw [hleave]
    refine ⟨⟨h.wellFormed.appendNode hfresh, hend ▸ htiles, ?_, rfl, ?_, ?_, ?_⟩, ?_,
      .append .refl hfresh hstart.2 (by simp only; omega), rfl, rfl, rfl⟩
    · intro w hw
      have := (htiles.bounds hw).1
      exact (h.todo w hw).appendNode h.wellFormed.toStoredList hfresh (by omega)
    · simp only
      omega
    · intro n hn hn'
      simp only at hn'
      exact covered_appendNode h.wellFormed.toStoredList hfresh (h.covered n hn) (by omega)
    · intro hm
      exact absurd hbw (by rw [(h.turned hm).1]; decide)
    · rw [hbw] at hf
      exact holds_appendNode h.wellFormed.toStoredList hfresh rfl rfl (by omega) hf
  · have hloc := h.located hbw
    have hleave : leaveBlock { t with
        offset := o, acumulate := k, filesended := t.filesended + (t.limit - t.acumulate) } =
        { t with
          offset := o, passed := t.passed ++ [cur], brange := rest, acumulate := 0
          filesended := t.filesended + (t.limit - t.acumulate) } := by
      simp only [leaveBlock, h.brange, hbw, Bool.false_eq_true, if_false]
    rw [hleave]
    refine ⟨⟨h.wellFormed, hend ▸ htiles, h.todo, rfl, ?_, ?_, fun hm => (h.turned hm).2⟩,
      hf.mono fun n p hn => .inl hn, .refl, rfl, rfl, rfl⟩
    · simp only
      omega
    · intro n hn hn'
      by_cases hna : n < cur.a
      · exact h.covered n hn hna
      · simp only at hn'
        exact (hloc.2 n (by omega) (by omega)).stored

theorem turnToHit_inside (h : Inside range_min e t cur rest) :
    Inside range_min e (turnToHit t) cur rest := by
  refine { h with turned := fun hm => ?_ }
  rcases Bool.or_eq_true_iff.mp hm with hm | hturn
  · exact h.turned hm
  · simp only [h.brange, isAllHit, List.all_cons, Bool.and_eq_true, Bool.not_eq_true',
      List.all_eq_true, decide_eq_true_eq] at hturn
    exact ⟨hturn.1, hturn.2.2⟩

/-! ## The loop over the blocks a piece fills -/

/-- How the loop ends on a piece of `len` bytes: inside a block that holds the rest of the piece, or
behind the plan with bytes left over. -/
inductive WriteLoopSpec {β : Type} (view : Char → β) (R : Int → β) (range_min e : Int) (t₀ : Transfer)
    (len : Int) : WriteLoop → Prop
  | fits {t : Transfer} {file body : Str} {cur : IntervalPositionByteDisk}
      {rest : LintervalPositionByteDisk} (inside : Inside range_min e t cur rest)
      (faithful : Holds view R (Laid t.lranges t.bwrite cur t.acumulate) file)
      (carries : Carries view R (range_min + t.filesended) body)
      (fit : t.acumulate + body.length ≤ t.limit)
      (count : t.filesended + body.length = t₀.filesended + len)
      (grows : Grows range_min (range_min + t.filesended) t₀.lranges t.lranges)
      (sent : t₀.filesended ≤ t.filesended) (isOpen : t.isOpen = t₀.isOpen) :
      WriteLoopSpec view R range_min e t₀ len (.fits t file body)
  | overflow {t : Transfer} {file : Str} (between : Between range_min e t) (done : t.brange = [])
      (faithful : Holds view R (Placed t.lranges) file)
      (count : t.filesended < t₀.filesended + len)
      (grows : Grows range_min (range_min + t.filesended) t₀.lranges t.lranges)
      (sent : t₀.filesended ≤ t.filesended) : WriteLoopSpec view R range_min e t₀ len (.overflow t file)

/-- One more step of the loop in front. -/
theorem WriteLoopSpec.step {t₀ t₁ : Transfer} {len len' : Int} {r : WriteLoop}
    (h : WriteLoopSpec view R range_min e t₁ len' r) (hcount : t₁.filesended + len' = t₀.filesended + len)
    (hgrows : Grows range_min (range_min + t₁.filesended) t₀.lranges t₁.lranges)
    (hsent : t₀.filesended ≤ t₁.filesended) (hopen : t₁.isOpen = t₀.isOpen) :
    WriteLoopSpec view R range_min e t₀ len r := by
  cases h with
  | fits inside faithful carries fit count grows sent isOpen =>
    exact .fits inside faithful carries fit (count.trans hcount)
      ((hgrows.mono (by omega)).trans grows) (hsent.trans sent) (isOpen.trans hopen)
  | overflow between done faithful count grows sent =>
    exact .overflow between done faithful (by omega) ((hgrows.mono (by omega)).trans grows)
      (hsent.trans sent)

/-- A piece that is longer than the rest of the current block fills it, and the block is left. -/
theorem fillBlock_between {body : Str} (h : Inside range_min e t cur rest)
    (hd : Carries view R (range_min + t.filesended) body)
    (hover : t.acumulate + body.length > t.limit)
    (hf : Holds view R (Laid t.lranges t.bwrite cur t.acumulate) file) :
    let data := body.take (t.limit - t.acumulate).toNat
    let t' := leaveBlock { t with
      offset := t.offset + (t.limit - t.acumulate)
      filesended := t.filesended + (t.limit - t.acumulate) }
    (data.length : Int) = t.limit - t.acumulate ∧ Between range_min e t' ∧
      Holds view R (Placed t'.lranges) (writeAt '\x00' file t.offset.toNat data) ∧
      Grows range_min (range_min + t'.filesended) t.lranges t'.lranges ∧ t'.brange = rest ∧
      t'.isOpen = t.isOpen ∧ t'.filesended = t.filesended + (t.limit - t.acumulate) := by
  have hacc := h.acumulate
  have hlen : ((body.take (t.limit - t.acumulate).toNat).length : Int) = t.limit - t.acumulate := by
    rw [List.length_take]
    omega
  have hf' := faithful_writeBytes h (hd.take (t.limit - t.acumulate).toNat) (by omega) hf
  rw [hlen, show t.acumulate + (t.limit - t.acumulate) = t.limit by omega] at hf'
  exact ⟨hlen, leaveBlock_between h hf' (t.offset + (t.limit - t.acumulate)) t.acumulate⟩

theorem writeLoop_spec (rest : LintervalPositionByteDisk) :
    ∀ (t : Transfer) (cur : IntervalPositionByteDisk) (file body : Str),
      Inside range_min e t cur rest → Carries view R (range_min + t.filesended) body →
      Holds view R (Laid t.lranges t.bwrite cur t.acumulate) file →
      ∃ r, writeLoop t file body rest = some r ∧
        WriteLoopSpec view R range_min e t body.length r := by
  induction rest with
  | nil =>
    intro t cur file body h hd hf
    have hacc := h.acumulate
    rw [writeLoop]
    by_cases hover : t.acumulate + body.length > t.limit
    · rw [if_pos hover, if_neg (by omega)]
      obtain ⟨hlen, hbet, hplaced, hgrows, hdone, -, hsent⟩ := fillBlock_between h hd hover hf
      simp only [writeBytes, hlen]
      exact ⟨_, rfl, .overflow hbet hdone hplaced (by omega) hgrows (by omega)⟩
    · rw [if_neg hover]
      exact ⟨_, rfl, .fits h hf hd (by omega) rfl .refl le_rfl rfl⟩
  | cons w rest ih =>
    intro t cur file body h hd hf
    have hacc := h.acumulate
    rw [writeLoop]
    by_cases hover : t.acumulate + body.length > t.limit
    · rw [if_pos hover, if_neg (by omega)]
      obtain ⟨hlen, hbet, hplaced, hgrows, hrest, hopen, hsent⟩ := fillBlock_between h hd hover hf
      simp only [writeBytes, hlen]
      generalize writeAt '\x00' file t.offset.toNat _ = file' at hplaced ⊢
      generalize leaveBlock _ = t₁ at hbet hplaced hgrows hrest hopen hsent ⊢
      obtain ⟨t₂, cur₂, rest₂, henter, hins, htail, hzero, hl₂, hsent₂, hopen₂⟩ :=
        enterBlock_inside hbet (by simp [hrest])
      rw [hrest, List.tail_cons] at htail
      subst htail
      have hdrop : Carries view R (range_min + t₂.filesended) (body.drop (t.limit - t.acumulate).toNat) := by
        have := hd.drop (t.limit - t.acumulate).toNat
        rwa [show range_min + t.filesended + ((t.limit - t.acumulate).toNat : Int) =
          range_min + t₂.filesended by omega] at this
      have hf₂ : Holds view R (Laid t₂.lranges t₂.bwrite cur₂ t₂.acumulate) file' := by
        rw [hzero, hl₂]
        exact hplaced.mono fun n p hn => laid_zero.mp hn
      rw [henter, Option.bind_some]
      obtain ⟨r, hr, hspec⟩ := ih (turnToHit t₂) cur₂ _ _ (turnToHit_inside hins) hdrop hf₂
      have hsent₃ : (turnToHit t₂).filesended = t₂.filesended := rfl
      refine ⟨r, hr, hspec.step ?_ ?_ (by omega) (hopen₂.trans hopen)⟩
      · rw [hsent₃, List.length_drop]
        omega
      · rw [hsent₃, hsent₂]
        exact hl₂ ▸ hgrows
    · rw [if_neg hover]
      exact ⟨_, rfl, .fits h hf hd (by omega) rfl .refl le_rfl rfl⟩

/-! ## One call -/

/-- The save of the block so far cuts it in two: the first part is stored, the rest goes on. -/
theorem heartbeat_inside (db : Db) (now : Int) (h : Inside range_min e t cur rest)
    (hf : Holds view R (Laid t.lranges t.bwrite cur t.acumulate) file) :
    let t' := heartbeat db now t
    ∃ cur', Inside range_min e t' cur' rest ∧
      Holds view R (Laid t'.lranges t'.bwrite cur' t'.acumulate) file ∧
      Grows range_min (range_min + t'.filesended) t.lranges t'.lranges ∧ t'.isOpen = t.isOpen ∧
      t'.filesended = t.filesended := by
  simp only [heartbeat, h.brange]
  split
  · split
    · next hsave =>
      obtain ⟨-, hne, hbw⟩ := hsave
      have hacc := h.acumulate
      have hlim := h.limit
      have hstart := h.start
      have hfresh := h.fresh hbw
      have hfirst := hfresh.firstPart (k := t.acumulate) (by omega) (by omega)
      have hlast := hfresh.lastPart h.wellFormed (k := t.acumulate) (by omega) (by omega)
      have hwf := h.wellFormed.toStoredList
      have htiles := h.tiles.2.2
      rw [appendSubNode_eq]
      refine ⟨cur.lastPart t.acumulate, ⟨h.wellFormed.appendNode hfirst, rfl,
        ⟨rfl, hlast.le, htiles⟩, ?_, fun _ => hlast, ?_, ?_, ?_, ?_, ?_, ?_, ?_, ?_⟩, ?_,
        .append .refl hfirst hstart.2 ?_, rfl, rfl⟩
      · intro w hw
        have := (htiles.bounds hw).1
        refine (h.todo w hw).appendNode hwf hfirst ?_
        simp only
        omega
      · intro hb
        have hb' : t.bwrite = false := hb
        exact absurd hbw (by rw [hb']; decide)
      · simp only [IntervalPositionByteDisk.lastPart, subUpdate, Transfer.set]
        omega
      · simp only [subUpdate, Transfer.set]
        omega
      · have := h.next
        simp only [IntervalPositionByteDisk.lastPart, subUpdate, Transfer.set]
        omega
      · have := h.offset
        simp only [IntervalPositionByteDisk.lastPart, subUpdate, Transfer.set]
        omega
      · simp only [IntervalPositionByteDisk.lastPart]
        omega
      · intro n hn hn'
        simp only [IntervalPositionByteDisk.lastPart] at hn'
        refine covered_appendNode hwf hfirst (h.covered n hn) ?_
        simp only [IntervalPositionByteDisk.firstPart]
        omega
      · intro hm
        exact absurd hbw (by rw [(h.turned hm).1]; decide)
      · -- the layout of the file does not change
        rw [hbw] at hf
        have hplaced := holds_appendNode hwf hfirst rfl rfl
          (by simp only [IntervalPositionByteDisk.firstPart]; omega) hf
        exact hplaced.mono fun n p hn => laid_zero.mp hn
      · have hnext := h.next
        simp only [subUpdate, Transfer.set]
        omega
    · exact ⟨cur, { h with brange := rfl }, hf, .refl, rfl, rfl⟩
  · exact ⟨cur, h, hf, .refl, rfl, rfl⟩

/-- A session that waits for a piece: nothing received yet, or inside a block. -/
inductive Receiving {β : Type} (view : Char → β) (R : Int → β) (range_min e : Int) (t : Transfer)
    (file : Str) : Prop
  | unopened (isOpen : t.isOpen = false) (passed : t.passed = []) (between : Between range_min e t)
      (more : range_min + t.filesended < e) (faithful : Holds view R (Placed t.lranges) file)
  | opened {cur : IntervalPositionByteDisk} {rest : LintervalPositionByteDisk}
      (isOpen : t.isOpen = true) (inside : Inside range_min e t cur rest)
      (faithful : Holds view R (Laid t.lranges t.bwrite cur t.acumulate) file)

theorem Receiving.more (h : Receiving view R range_min e t file) :
    range_min + t.filesended < e := by
  cases h with
  | unopened isOpen passed between more faithful => exact more
  | opened isOpen inside faithful => exact inside.more

/-- The timer and the requests to be counted make no difference. -/
theorem Receiving.timer (h : Receiving view R range_min e t file) (timerecord count_wait : Int) :
    Receiving view R range_min e { t with timerecord, count_wait } file := by
  cases h with
  | unopened isOpen passed between more faithful =>
    exact .unopened isOpen passed { between with } more faithful
  | opened isOpen inside faithful => exact .opened isOpen { inside with } faithful

theorem Receiving.open_inside (h : Receiving view R range_min e t file) :
    ∃ t' cur rest, (if t.isOpen then some t else openMiss t) = some t' ∧
      Inside range_min e t' cur rest ∧ Holds view R (Laid t'.lranges t'.bwrite cur t'.acumulate) file ∧
      t'.lranges = t.lranges ∧ t'.filesended = t.filesended ∧ t'.isOpen = true := by
  cases h with
  | @opened cur rest isOpen inside faithful =>
    exact ⟨t, cur, rest, by rw [isOpen]; rfl, inside, faithful, rfl, rfl, isOpen⟩
  | unopened isOpen passed between more faithful =>
    have hwork : t.lrangeswork = t.brange := by rw [Transfer.lrangeswork, passed, List.nil_append]
    have hbet : Between range_min e { t with
        passed := [], brange := t.lrangeswork, acumulate := 0, isOpen := true, failed := false } := by
      rw [hwork]
      exact { between with acumulate := rfl }
    have hne : t.lrangeswork ≠ [] := by
      intro hnil
      have htiles := between.tiles
      rw [← hwork, hnil] at htiles
      exact absurd htiles more.ne
    obtain ⟨t', cur, rest, henter, hins, -, hzero, hl, hsent, hopen⟩ := enterBlock_inside hbet hne
    refine ⟨t', cur, rest, ?_, hins, ?_, hl, hsent, hopen⟩
    · rw [isOpen]
      exact henter
    · rw [hzero, hl]
      exact faithful.mono fun n p hn => laid_zero.mp hn

/-- What a call on the piece `d` comes to. It fails only when the plan does not hold the
`filesizeneto` bytes of the response, or the piece is longer than what is left of them. -/
inductive MissSpec {β : Type} (view : Char → β) (R : Int → β) (range_min e : Int) (t : Transfer)
    (d : Str) (part : BodyPart) : Prop
  | inside {cur : IntervalPositionByteDisk} {rest : LintervalPositionByteDisk}
      (value : part.BodyLength = d.length) (isOpen : part.t.isOpen = true)
      (inside : Inside range_min e part.t cur rest)
      (faithful : Holds view R (Laid part.t.lranges part.t.bwrite cur part.t.acumulate) part.file)
      (sent : part.t.filesended = t.filesended + d.length)
  | complete (value : part.BodyLength = d.length) (between : Between range_min e part.t)
      (done : part.t.brange = []) (faithful : Holds view R (Placed part.t.lranges) part.file)
      (sent : part.t.filesended = t.filesended + d.length)
      (whole : part.t.filesended = t.filesizeneto)
  | failed (value : part.BodyLength = -1) (wellFormed : WellFormed part.t.lranges)
      (acumulate : part.t.acumulate = 0) (faithful : Holds view R (Placed part.t.lranges) part.file)
      (reason : e - range_min ≠ t.filesizeneto ∨ t.filesizeneto < t.filesended + d.length)
      (sent : t.filesended ≤ part.t.filesended ∧ part.t.filesended ≤ t.filesended + d.length ∧
        range_min + part.t.filesended ≤ e)
      (covered : ∀ n, range_min ≤ n → n < e → n < range_min + t.filesended + d.length →
        n ∈ storedBytes part.t.lranges)

/-- No byte is written that was not received, and none behind the plan. -/
theorem MissSpec.sent_le {d : Str} {part : BodyPart} (h : MissSpec view R range_min e t d part) :
    t.filesended ≤ part.t.filesended ∧ part.t.filesended ≤ t.filesended + d.length ∧
      range_min + part.t.filesended ≤ e := by
  cases h with
  | inside value isOpen inside faithful sent => exact ⟨by omega, sent.le, inside.more.le⟩
  | complete value between done faithful sent whole => exact ⟨by omega, sent.le, between.tiles.le⟩
  | failed value wellFormed acumulate faithful reason sent covered => exact sent

/-- Behind a block that the piece filled exactly. -/
theorem nextBlock_spec (db : Db) (now : Int) (h : Between range_min e t) (d : Str)
    (hf : Holds view R (Placed t.lranges) file) (hopen : t.isOpen = true) (t₀ : Transfer)
    (hcount : t.filesended = t₀.filesended + d.length) (hneto : t.filesizeneto = t₀.filesizeneto) :
    ∃ part, nextBlock db now t file d = some part ∧ MissSpec view R range_min e t₀ d part ∧
      Grows range_min (range_min + part.t.filesended) t.lranges part.t.lranges ∧
      part.t.filesended = t.filesended := by
  have htiles := h.tiles
  unfold nextBlock
  by_cases hend : t.brange.isEmpty ∧ t.filesended = t.filesizeneto
  · rw [if_pos hend]
    exact ⟨_, rfl, .complete rfl h (List.isEmpty_iff.mp hend.1) hf hcount (hend.2.trans hneto),
      .refl, rfl⟩
  · rw [if_neg hend]
    by_cases hfail : t.brange.isEmpty ∨ t.filesended = t.filesizeneto
    · rw [if_pos hfail]
      refine ⟨_, rfl, .failed rfl h.wellFormed h.acumulate hf (.inl fun heq => ?_)
        ⟨by simp only; omega, hcount.le, htiles.le⟩ fun n hn _ hn' => h.covered n hn (by omega), .refl, rfl⟩
      -- the plan ends before the response, or behind it
      by_cases hnil : t.brange = []
      · rw [hnil] at htiles
        have hlast : range_min + t.filesended = e := htiles
        exact hend ⟨List.isEmpty_iff.mpr hnil, by omega⟩
      · obtain ⟨w, ws, hw⟩ := List.exists_cons_of_ne_nil hnil
        rw [hw] at htiles
        have hwa := htiles.1
        have hwab := htiles.2.1
        have hwe := htiles.2.2.le
        have := hfail.resolve_left (by simpa using hnil)
        omega
    · rw [if_neg hfail]
      have hne : t.brange ≠ [] := fun hnil => hfail (.inl (List.isEmpty_iff.mpr hnil))
      obtain ⟨t₂, cur₂, rest₂, henter, hins, -, hzero, hl₂, hsent₂, hopen₂⟩ := enterBlock_inside h hne
      have hf₂ : Holds view R (Laid t₂.lranges t₂.bwrite cur₂ t₂.acumulate) file := by
        rw [hzero, hl₂]
        exact hf.mono fun n p hn => laid_zero.mp hn
      obtain ⟨cur₃, hins₃, hf₃, hgrows₃, hopen₃, hsent₃⟩ :=
        heartbeat_inside db now (turnToHit_inside hins) hf₂
      rw [henter, Option.map_some]
      refine ⟨_, rfl, .inside rfl ?_ hins₃ hf₃ ?_, ?_, hsent₃.trans hsent₂⟩
      · exact (hopen₃.trans hopen₂).trans hopen
      · exact (hsent₃.trans hsent₂).trans hcount
      · rwa [← hl₂]

theorem writeTail_spec (db : Db) (now : Int) (h : Inside range_min e t cur rest) {body : Str}
    (d : Str) (hbody : Carries view R (range_min + t.filesended) body)
    (hfit : t.acumulate + body.length ≤ t.limit)
    (hf : Holds view R (Laid t.lranges t.bwrite cur t.acumulate) file) (hopen : t.isOpen = true)
    (t₀ : Transfer) (hcount : t.filesended + body.length = t₀.filesended + d.length)
    (hneto : t.filesizeneto = t₀.filesizeneto) :
    ∃ part, writeTail db now t file body d = some part ∧ MissSpec view R range_min e t₀ d part ∧
      Grows range_min (range_min + part.t.filesended) t.lranges part.t.lranges ∧
      t.filesended ≤ part.t.filesended := by
  have hf' := faithful_writeBytes h hbody hfit hf
  have hacc := h.acumulate
  have hnext := h.next
  have hoff := h.offset
  unfold writeTail writeBytes
  simp only
  generalize writeAt '\x00' file t.offset.toNat body = file' at hf' ⊢
  split
  · next hfull =>
    have hlen : (body.length : Int) = t.limit - t.acumulate := by omega
    rw [hfull] at hf'
    obtain ⟨hbet, hplaced, hgrows, -, hopen', hsent⟩ :=
      leaveBlock_between h hf' (t.offset + (t.limit - t.acumulate))
        (t.acumulate + (t.limit - t.acumulate))
    rw [hlen]
    obtain ⟨part, hpart, hmiss, hgrows', hsent'⟩ := nextBlock_spec db now hbet d hplaced
      (hopen'.trans hopen) t₀ (by omega) ((leaveBlock_silent _).filesizeneto.trans hneto)
    exact ⟨part, hpart, hmiss, (hgrows.mono (by omega)).trans hgrows', by omega⟩
  · next hpart =>
    have hins : Inside range_min e { t with
        offset := t.offset + body.length, filesended := t.filesended + body.length
        acumulate := t.acumulate + body.length } cur rest :=
      { h with
        acumulate := ⟨by simp only; omega, by simp only; omega⟩
        next := by simp only; omega
        offset := by simp only; omega }
    obtain ⟨cur₃, hins₃, hf₃, hgrows₃, hopen₃, hsent₃⟩ := heartbeat_inside db now hins hf'
    refine ⟨_, rfl, .inside rfl (hopen₃.trans hopen) hins₃ hf₃ (hsent₃.trans hcount), hgrows₃, ?_⟩
    rw [hsent₃]
    simp only
    omega

/-- **What one call of the miss writer does** to a session that waits for the piece `d`. -/
theorem readMiss_spec (db : Db) (now : Int) (h : Receiving view R range_min e t file) {d : Str}
    (hne : d ≠ []) (hd : Carries view R (range_min + t.filesended) d) :
    ∃ part, readMiss db now t file (some d) = some part ∧ MissSpec view R range_min e t d part ∧
      Grows range_min (range_min + part.t.filesended) t.lranges part.t.lranges := by
  obtain ⟨t₁, cur, rest, hopen, hins, hf, hl, hsent, hisOpen⟩ := h.open_inside
  obtain ⟨c, cs, rfl⟩ := List.exists_cons_of_ne_nil hne
  obtain ⟨r, hr, hspec⟩ := writeLoop_spec rest t₁ cur file (c :: cs) hins (hsent ▸ hd) hf
  have hneto : r.state.filesizeneto = t.filesizeneto := by
    refine (writeLoop_silent hr).filesizeneto.trans ?_
    split at hopen
    · cases hopen
      rfl
    · exact (openMiss_silent hopen).filesizeneto
  simp only [readMiss, hopen, Option.bind_some, hins.brange, List.tail_cons, hr]
  cases hspec with
  | @fits t₂ file₂ body cur₂ rest₂ inside faithful carries fit count grows sent isOpen =>
    obtain ⟨part, hpart, hmiss, hgrows, hle⟩ := writeTail_spec db now inside (c :: cs)
      carries fit faithful (isOpen.trans hisOpen) t (by omega) hneto
    exact ⟨part, hpart, hmiss, ((hl ▸ grows).mono (by omega)).trans hgrows⟩
  | @overflow t₂ file₂ between done faithful count grows sent =>
    have htiles := between.tiles
    rw [done] at htiles
    have hend : range_min + t₂.filesended = e := htiles
    refine ⟨writeOverflow db t₂ file₂ (c :: cs), rfl, ?_⟩
    have hreason : e - range_min ≠ t.filesizeneto ∨
        t.filesizeneto < t.filesended + ((c :: cs).length : Int) := by omega
    have hcovered : ∀ n, range_min ≤ n → n < e →
        n < range_min + t.filesended + ((c :: cs).length : Int) → n ∈ storedBytes t₂.lranges :=
      fun n hn hn' _ => between.covered n hn (by omega)
    simp only [writeOverflow, liberateEdition]
    split
    · exact ⟨.failed rfl between.wellFormed between.acumulate faithful hreason
        ⟨by simp only; omega, by simp only; omega, hend.le⟩ hcovered, hl ▸ grows⟩
    · exact ⟨.failed rfl between.wellFormed between.acumulate faithful hreason
        ⟨by simp only [Transfer.set]; omega, by simp only [Transfer.set]; omega, hend.le⟩ hcovered, hl ▸ grows⟩

end Writing

end Haarp
