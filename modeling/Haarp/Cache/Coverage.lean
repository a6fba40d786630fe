import Haarp.Base.Run
import Haarp.Cache.Session
import Haarp.Utils.LongLong

/-!
# What the writer leaves of a list

The miss writer, called on pieces of any sizes, with a save of the current block wherever its timer
finds one due, and `Update` at the end. `writer_keeps_packed`: the list it leaves fills the cache file
as the list it started from did, and holds the bytes of that list and those received for missing
blocks.

Nothing of this depends on what the cache file holds (`readMiss_file`), so a step may find any file.
-/

namespace Haarp

open Base

/-! ## Packed lists -/

/-- Blocks that share no byte, with extents that fill the cache file up to `getPointEnd`. -/
structure PackedList (l : LintervalPositionByteDisk) : Prop where
  bounds : ∀ x ∈ l, 0 ≤ x.a ∧ x.a ≤ x.b
  apart : ApartBytes l
  disk : ApartDisk l
  fills : ∀ p, p ∈ covered IntervalPositionByteDisk.position IntervalPositionByteDisk.lastPosition l ↔
    0 ≤ p ∧ p < getPointEnd l

section Packed

variable {l : LintervalPositionByteDisk}

theorem getFileSize_eq_diskSpan (l : LintervalPositionByteDisk) :
    getFileSize l =
      span IntervalPositionByteDisk.position IntervalPositionByteDisk.lastPosition l := by
  induction l with
  | nil => rfl
  | cons x l ih =>
    rw [getFileSize, span_cons, ih, IntervalPositionByteDisk.lastPosition]
    omega

/-- A well-formed list fills the file when the file is as long as its blocks. -/
theorem WellFormed.fills_iff (hl : WellFormed l) :
    getFileSize l = getPointEnd l ↔
      ∀ p, p ∈ covered IntervalPositionByteDisk.position IntervalPositionByteDisk.lastPosition l ↔
        0 ≤ p ∧ p < getPointEnd l := by
  rw [getFileSize_eq_diskSpan]
  refine span_eq_iff_covered hl.disk (fun x hx => ?_) (fun x hx => (hl.bounds x hx).2.2)
    (getPointEnd_spec hl).1 (getPointEnd_nonneg hl)
  have := hl.bounds x hx
  rw [IntervalPositionByteDisk.lastPosition]
  omega

theorem PackedList.wellFormed (h : PackedList l) : WellFormed l := by
  refine ⟨⟨fun x hx => ?_, h.apart⟩, h.disk⟩
  have hb := h.bounds x hx
  have hp := (h.fills x.position).mp ⟨x, hx, le_rfl, by rw [IntervalPositionByteDisk.lastPosition]; omega⟩
  exact ⟨hb.1, hb.2, hp.1⟩

theorem packedList_iff : PackedList l ↔ WellFormed l ∧ getFileSize l = getPointEnd l := by
  constructor
  · intro h
    exact ⟨h.wellFormed, h.wellFormed.fills_iff.mpr h.fills⟩
  · rintro ⟨hl, hsize⟩
    exact ⟨fun x hx => ⟨(hl.bounds x hx).1, (hl.bounds x hx).2.1⟩, hl.apart, hl.disk,
      hl.fills_iff.mp hsize⟩

theorem PackedList.packed (h : PackedList l) {m : Int} (hm : getExtremeb l < m) : Packed m l := by
  obtain ⟨hl, hsize⟩ := packedList_iff.mp h
  refine ⟨hl, hsize.symm, fun x hx => ?_⟩
  have := le_getExtremeb hx
  omega

theorem Packed.packedList {m : Int} (h : Packed m l) : PackedList l :=
  packedList_iff.mpr ⟨h.toWellFormed, h.noHole.symm⟩

theorem PackedList.perm {l' : LintervalPositionByteDisk} (h : PackedList l) (hp : l.Perm l') :
    PackedList l' :=
  ((h.packed (Int.lt_succ _)).perm hp).packedList

theorem PackedList.grows {s e : Int} {l' : LintervalPositionByteDisk} (h : PackedList l)
    (hgrows : Grows s e l l') : PackedList l' := by
  have hlt : getExtremeb l < max (getExtremeb l + 1) e := by omega
  exact (hgrows.packed (le_max_right _ e) (h.packed hlt)).packedList

end Packed

/-! ## The file does not matter -/

section File

variable {db : Db} {now : Int} {file file' : Str}

def WriteLoop.forget : WriteLoop → Transfer × Option Str
  | .fits t _ body => (t, some body)
  | .overflow t _ => (t, none)

theorem writeLoop_file (file' : Str) {t : Transfer} {body : Str} {rest : LintervalPositionByteDisk}
    {out : WriteLoop} (h : writeLoop t file body rest = some out) :
    ∃ out', writeLoop t file' body rest = some out' ∧ out'.forget = out.forget := by
  induction rest generalizing t file file' body with
  | nil =>
    rw [writeLoop] at h ⊢
    split at h
    · next hover =>
      rw [if_pos hover]
      split at h
      · cases h
      · next hlim =>
        rw [if_neg hlim]
        cases h
        exact ⟨_, rfl, rfl⟩
    · next hover =>
      rw [if_neg hover]
      cases h
      exact ⟨_, rfl, rfl⟩
  | cons w rest ih =>
    rw [writeLoop] at h ⊢
    split at h
    · next hover =>
      rw [if_pos hover]
      split at h
      · cases h
      · next hlim =>
        rw [if_neg hlim]
        obtain ⟨t₁, henter, hloop⟩ := Option.bind_eq_some_iff.mp h
        obtain ⟨out', hout', hforget⟩ := ih _ hloop
        exact ⟨out', Option.bind_eq_some_iff.mpr ⟨t₁, henter, hout'⟩, hforget⟩
    · next hover =>
      rw [if_neg hover]
      cases h
      exact ⟨_, rfl, rfl⟩

theorem nextBlock_file (file' : Str) {t : Transfer} {bodyT : Str} {part : BodyPart}
    (h : nextBlock db now t file bodyT = some part) :
    ∃ part', nextBlock db now t file' bodyT = some part' ∧ part'.t = part.t ∧
      part'.BodyLength = part.BodyLength := by
  unfold nextBlock at h ⊢
  split at h
  · next hend =>
    cases h
    rw [if_pos hend]
    exact ⟨_, rfl, rfl, rfl⟩
  · next hend =>
    rw [if_neg hend]
    split at h
    · next hfail =>
      cases h
      rw [if_pos hfail]
      exact ⟨_, rfl, rfl, rfl⟩
    · next hfail =>
      rw [if_neg hfail]
      obtain ⟨t₁, henter, rfl⟩ := Option.map_eq_some_iff.mp h
      exact ⟨_, Option.map_eq_some_iff.mpr ⟨t₁, henter, rfl⟩, rfl, rfl⟩

theorem writeTail_file (file' : Str) {t : Transfer} {rest bodyT : Str} {part : BodyPart}
    (h : writeTail db now t file rest bodyT = some part) :
    ∃ part', writeTail db now t file' rest bodyT = some part' ∧ part'.t = part.t ∧
      part'.BodyLength = part.BodyLength := by
  unfold writeTail writeBytes at h ⊢
  dsimp only at h ⊢
  split at h
  · next hfull =>
    rw [if_pos hfull]
    exact nextBlock_file _ h
  · next hfull =>
    cases h
    rw [if_neg hfull]
    exact ⟨_, rfl, rfl, rfl⟩

/-- What a miss does to the state does not depend on the content of the cache file. -/
theorem readMiss_file (file' : Str) {t : Transfer} {recv : Option Str} {part : BodyPart}
    (h : readMiss db now t file recv = some part) :
    ∃ part', readMiss db now t file' recv = some part' ∧ part'.t = part.t ∧
      part'.BodyLength = part.BodyLength := by
  obtain ⟨t₁, hopen, h⟩ := Option.bind_eq_some_iff.mp h
  unfold readMiss
  rw [hopen, Option.bind_some]
  match recv with
  | none =>
    cases h
    exact ⟨_, rfl, rfl, rfl⟩
  | some [] =>
    cases h
    exact ⟨_, rfl, rfl, rfl⟩
  | some (c :: d) =>
    obtain ⟨out, hloop, h⟩ := Option.bind_eq_some_iff.mp h
    obtain ⟨out', hloop', hforget⟩ := writeLoop_file file' hloop
    dsimp only
    rw [hloop', Option.bind_some]
    cases out with
    | fits t₂ file₂ body =>
      cases out' with
      | overflow t₃ file₃ => cases hforget
      | fits t₃ file₃ body₃ =>
        cases hforget
        exact writeTail_file file₃ h
    | overflow t₂ file₂ =>
      cases out' with
      | fits t₃ file₃ body₃ => cases hforget
      | overflow t₃ file₃ =>
        cases hforget
        cases h
        exact ⟨_, rfl, rfl, rfl⟩

end File

/-! ## Runs of the writer -/

/-- The miss writer: its state, how many bytes it has received, and whether a call has returned -1. -/
structure Writer where
  t : Transfer
  received : Int
  ended : Bool

/-- The step of a call, and of the timer that decides which calls save the current block. A piece comes
as long as the plan is not used up. -/
inductive Writer.Step : Writer → Writer → Prop
  | timer (w : Writer) (timerecord count_wait : Int) :
      Step w { w with t := { w.t with timerecord, count_wait } }
  | piece {w : Writer} (db : Db) (now : Int) (file d : Str) (part : BodyPart)
      (going : w.ended = false) (more : w.t.brange ≠ []) (hne : d ≠ [])
      (call : readMiss db now w.t file (some d) = some part) :
      Step w
        { t := part.t, received := w.received + d.length, ended := decide (part.BodyLength = -1) }

section Runs

variable {l : LintervalPositionByteDisk} {range_min range_max e : Int} {w w' : Writer}

/-- Where the writer stands: it waits for a piece, or has come to its end. -/
inductive Writer.Stands (range_min e : Int) (w : Writer) : Prop
  | receiving (file : Str) (waits : Receiving (fun _ => ()) (fun _ => ()) range_min e w.t file)
      (received : w.received = w.t.filesended)
  | done (acumulate : w.t.acumulate = 0) (ended : w.ended = true ∨ w.t.brange = [])
      (covered : ∀ n, range_min ≤ n → n < e → n < range_min + w.received →
        n ∈ storedBytes w.t.lranges)

/-- What holds between two calls: the list has gained bytes that were received, and all of the plan
that were. -/
structure Writer.Inv (l : LintervalPositionByteDisk) (range_min e : Int) (w : Writer) : Prop where
  grows : Grows range_min (range_min + w.t.filesended) l w.t.lranges
  sent : w.t.filesended ≤ w.received ∧ range_min + w.t.filesended ≤ e
  stands : w.Stands range_min e

theorem Writer.Inv.step (h : w.Inv l range_min e) (hstep : w.Step w') : w'.Inv l range_min e := by
  obtain ⟨hgrows, hsent, hstands⟩ := h
  cases hstep with
  | timer timerecord count_wait =>
    refine ⟨hgrows, hsent, ?_⟩
    cases hstands with
    | receiving file waits received =>
      exact .receiving file (waits.timer timerecord count_wait) received
    | done acumulate ended covered => exact .done acumulate ended covered
  | piece db now file d part going more hne call =>
    cases hstands with
    | done acumulate ended covered =>
      rcases ended with hover | hnil
      · rw [going] at hover
        cases hover
      · exact absurd hnil more
    | receiving file' waits received =>
      have hlen := List.length_pos_iff.mpr hne
      obtain ⟨part', call', ht, hvalue⟩ := readMiss_file file' call
      obtain ⟨part₁, call₁, hspec, hgrows'⟩ := readMiss_spec db now waits hne (carries_unit _ _)
      cases call'.symm.trans call₁
      rw [← ht, ← hvalue]
      obtain ⟨hge, hle, hend⟩ := hspec.sent_le
      have hgained : Grows range_min (range_min + part'.t.filesended) l part'.t.lranges :=
        (hgrows.mono (by omega)).trans hgrows'
      refine ⟨hgained, ⟨by simp only; omega, hend⟩, ?_⟩
      cases hspec with
      | inside value isOpen inside faithful sent =>
        exact .receiving _ (.opened isOpen inside faithful) (by simp only; omega)
      | complete value between done faithful sent whole =>
        refine .done between.acumulate (.inr done) fun n hn hn' hn'' => between.covered n hn ?_
        simp only at hn''
        omega
      | failed value wellFormed acumulate faithful reason sent covered =>
        refine .done acumulate (.inl (by simp [value])) fun n hn hn' hn'' => covered n hn hn' ?_
        simp only at hn''
        omega

/-- What `Update` stores of the writer: all that was received for the plan. -/
theorem Writer.Inv.appended (h : w.Inv l range_min e) :
    ∃ k, Grows range_min (range_min + k) l (appendCurrent w.t).lranges ∧
      (k ≤ w.received ∧ range_min + k ≤ e) ∧
      ∀ n, range_min ≤ n → n < e → n < range_min + w.received →
        n ∈ storedBytes (appendCurrent w.t).lranges := by
  obtain ⟨hgrows, hsent, hstands⟩ := h
  refine ⟨w.t.filesended, ?_, hsent, ?_⟩
  · cases hstands with
    | done acumulate ended covered => rwa [appendCurrent_settled (.inl acumulate)]
    | receiving file waits received =>
      cases waits with
      | unopened isOpen passed between more faithful =>
        rwa [appendCurrent_settled (.inl between.acumulate)]
      | opened isOpen inside faithful => exact hgrows.trans (appendCurrent_inside inside faithful).1
  · cases hstands with
    | done acumulate ended covered => rwa [appendCurrent_settled (.inl acumulate)]
    | receiving file waits received =>
      cases waits with
      | unopened isOpen passed between more faithful =>
        rw [appendCurrent_settled (.inl between.acumulate)]
        exact fun n hn _ hn' => between.covered n hn (by omega)
      | opened isOpen inside faithful =>
        obtain ⟨-, -, hcovered⟩ := appendCurrent_inside inside faithful
        exact fun n hn _ hn' => hcovered n hn (by omega)

/-- A packed list that ends below the greatest byte number has offsets of the type only. -/
theorem PackedList.getRangeWorkLL_eq (hl : PackedList l) (hfits : ∀ x ∈ l, x.b < llongMax)
    (h₀ : 0 ≤ range_min) (hle : range_min ≤ range_max) (hmax : range_max ≤ llongMax) :
    getRangeWorkLL l range_min range_max = getRangeWork l range_min range_max := by
  have hend := (hl.packed (getExtremeb_lt (by decide) hfits)).getPointEnd_le
  refine getRangeWorkLL_of_below hl.wellFormed.toStoredList hfits (fun x hx => ?_) h₀ hle hmax
  have := (getPointEnd_spec hl.wellFormed).1 x hx
  rw [IntervalPositionByteDisk.lastPosition] at this
  omega

/-- The bytes that the server has sent for missing blocks of the plan, after `received` bytes. -/
def receivedMissing (l : LintervalPositionByteDisk) (range_min range_max received : Int) : Set Int :=
  {n | n < range_min + received ∧
    ∃ v ∈ (getRangeWork l range_min range_max).1, v.position = -1 ∧ v.a ≤ n ∧ n ≤ v.b}

/-- **The writer keeps a list packed**: after any calls and the last append of `Update`, the blocks
fill the cache file as before, and hold the old bytes and those received for missing blocks. -/
theorem writer_keeps_packed (hl : PackedList l) (hfits : ∀ x ∈ l, x.b < llongMax)
    (h₀ : 0 ≤ range_min) (hle : range_min ≤ range_max) (hmax : range_max < llongMax)
    (hstart : w.t.Starts l (getRangeWorkLL l range_min range_max).1) (hnone : w.received = 0)
    (hrun : Run Writer.Step w w') :
    PackedList w'.t.lranges ∧ PackedList (appendCurrent w'.t).lranges ∧
      getFileSize (appendCurrent w'.t).lranges = getPointEnd (appendCurrent w'.t).lranges ∧
      storedBytes (appendCurrent w'.t).lranges =
        storedBytes l ∪ receivedMissing l range_min range_max w'.received := by
  have hwf := hl.wellFormed
  rw [hl.getRangeWorkLL_eq hfits h₀ hle hmax.le] at hstart
  have hperm := hstart.lranges
  have hfirst : PackedList w.t.lranges := hl.perm hperm.symm
  obtain ⟨htiles, hblocks, -⟩ := getRangeWork_spec hwf.toStoredList h₀ hle
  -- a file of the right length, whatever file the calls find
  have hholds : Holds (fun _ => ()) (fun _ => ()) (Placed l)
      (List.replicate (getPointEnd l).toNat 'x') := by
    refine holds_of_length hwf fun x hx => ?_
    have := (getPointEnd_spec hwf).1 x hx
    rw [List.length_replicate]
    omega
  have hwaits := hstart.receiving hwf hholds h₀ (lt_planEnd hle) htiles hblocks
  have hinit : w.Inv w.t.lranges range_min (planEnd l range_min range_max) := by
    have hsent := hstart.filesended
    have := htiles.le
    exact ⟨.refl, by omega, .receiving _ hwaits (by omega)⟩
  have hinv := run_invariant (fun _ _ h hstep => Writer.Inv.step h hstep) hrun hinit
  obtain ⟨k, hgrows, hk, hcovered⟩ := hinv.appended
  have happended := hfirst.grows hgrows
  refine ⟨hfirst.grows hinv.grows, happended, (packedList_iff.mp happended).2, ?_⟩
  ext n
  rw [Set.mem_union, receivedMissing, Set.mem_ofPred_eq]
  constructor
  · intro hn
    rcases hgrows.gained hfirst.wellFormed hn with hold | ⟨hge, hlt⟩
    · exact .inl (by rwa [storedBytes, ← covered_perm hperm])
    · obtain ⟨v, hv, hva, hvb⟩ := htiles.mem_covered_iff.mpr ⟨hge, by omega⟩
      rcases hblocks v hv with hmiss | hin
      · exact .inr ⟨by omega, v, hv, hmiss.1, hva, hvb⟩
      · exact .inl (hin.placed hva hvb).stored
  · rintro (hold | ⟨hlt, v, hv, -, hva, hvb⟩)
    · refine hgrows.stored hfirst.wellFormed ?_
      rwa [storedBytes, covered_perm hperm]
    · have := htiles.bounds hv
      exact hcovered n (by omega) (by omega) hlt

/-- Three of the bytes 0 to 9 come, and 5 to 9 are stored. -/
theorem writer_keeps_packed_three :
    ∃ w' : Writer,
      Run Writer.Step
        ⟨.start ⟨true, [], ['f'], 0, 0, 0, false⟩ [⟨5, 9, 0⟩] 0 9 0, 0, false⟩ w' ∧
      (appendCurrent w'.t).lranges = [⟨5, 9, 0⟩, ⟨0, 2, 5⟩] ∧
      PackedList (appendCurrent w'.t).lranges ∧
      storedBytes (appendCurrent w'.t).lranges =
        storedBytes [⟨5, 9, 0⟩] ∪ receivedMissing [⟨5, 9, 0⟩] 0 9 3 := by
  have hrun : Run Writer.Step
      ⟨.start ⟨true, [], ['f'], 0, 0, 0, false⟩ [⟨5, 9, 0⟩] 0 9 0, 0, false⟩ _ :=
    .single (.piece succeeds 0 [] ['x', 'y', 'z'] _ rfl (by decide) (by decide) rfl)
  have hplan : getRangeWorkLL [⟨5, 9, 0⟩] 0 9 = getRangeWork [⟨5, 9, 0⟩] 0 9 := by decide
  obtain ⟨-, hpacked, -, hbytes⟩ := writer_keeps_packed (l := [⟨5, 9, 0⟩])
    (packedList_iff.mpr ⟨by decide, by decide⟩) (by decide) (Int.le_refl 0)
    (by decide : (0 : Int) ≤ 9) (by decide) (hplan ▸ start_starts _ _ _ _ _) rfl hrun
  exact ⟨_, hrun, by decide, hpacked, hbytes⟩

end Runs

end Haarp
