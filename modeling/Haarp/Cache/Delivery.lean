import Haarp.Cache.Reading
import Haarp.Cache.Session

/-!
# What the calls deliver

`ToServer` is the state behind `ToServer.ReadBodyPart` while a body is transferred: the session, the
cache file, and the pieces of the body that the server has sent and nobody has read.
`ToServer.deliver` calls it until the response is complete.

A hit delivers the extents of its plan in the cache file (`hit_delivers`), and a miss the body that
the server sends, wherever it turns into a hit (`switch_delivers`).
-/

namespace Haarp

open Base

/-- `ToServer`, with the number of calls of `ReadBodyPart` so far. -/
structure ToServer where
  t : Transfer
  file : Str
  pieces : List Str
  calls : Nat

/-- `ConnectionToHTTP2::ReadBodyPart`. A session that reads from the cache file takes no piece from
the server, and one that uses no cache entry passes the piece on. Behind the last piece the server
has closed the connection. -/
def ToServer.readBodyPart (db : Db) (clock : Nat → Int) (s : ToServer) :
    Option (Int × Str × ToServer) :=
  let calls := s.calls + 1
  if s.t.hit ∨ s.t.miss2hit then
    (Haarp.readBodyPart db (clock s.calls) s.t s.file none).map fun part =>
      (part.BodyLength, part.bodyT, { s with t := part.t, file := part.file, calls })
  else
    let d := s.pieces.headD []
    let pieces := s.pieces.tail
    if s.t.r.isMatch then
      (Haarp.readBodyPart db (clock s.calls) s.t s.file (some d)).map fun part =>
        (part.BodyLength, part.bodyT, { t := part.t, file := part.file, pieces, calls })
    else some (d.length, d, { s with pieces, calls })

/-- The calls of `ReadBodyPart` until one returns nothing or the response is complete: what each of
them returns, and the state behind the last. -/
def ToServer.deliver (db : Db) (clock : Nat → Int) :
    Nat → ToServer → Option (List (Int × Str) × ToServer)
  | 0, s => some ([], s)
  | fuel + 1, s =>
    (s.readBodyPart db clock).bind fun (BodyLength, bodyT, s) =>
      if BodyLength ≤ 0 ∨ s.t.filesended = s.t.filesizeneto then some ([(BodyLength, bodyT)], s)
      else (deliver db clock fuel s).map fun (parts, s) => ((BodyLength, bodyT) :: parts, s)

/-! ## The rule of the calls -/

/-- Every call has returned the length of its part, the parts make up the body, and the response is
complete behind the last of them. -/
structure DeliversBody (body : Str) (parts : List (Int × Str)) (s : ToServer) : Prop where
  lengths : ∀ p ∈ parts, 0 < p.1 ∧ p.1 = p.2.length
  body : (parts.map Prod.snd).flatten = body
  complete : s.t.filesended = s.t.filesizeneto

section Rule

variable {db : Db} {clock : Nat → Int} {J : ToServer → Str → Prop}

/-- **The rule of the calls**: where each call delivers the start of what is left, and the counters
meet when nothing is, the calls deliver all of it. -/
theorem deliver_spec
    (hread : ∀ s left, J s left → left ≠ [] → ∃ d left' s',
      s.readBodyPart db clock = some (d.length, d, s') ∧ d ≠ [] ∧ d ++ left' = left ∧ J s' left')
    (hend : ∀ s left, J s left → (left = [] ↔ s.t.filesended = s.t.filesizeneto)) (fuel : Nat) :
    ∀ s left, J s left → left ≠ [] → left.length ≤ fuel →
      ∃ parts s', s.deliver db clock fuel = some (parts, s') ∧ DeliversBody left parts s' := by
  induction fuel with
  | zero =>
    intro s left _ hne hfuel
    exact absurd (List.length_eq_zero_iff.mp (Nat.le_zero.mp hfuel)) hne
  | succ fuel ih =>
    intro s left hJ hne hfuel
    obtain ⟨d, left', s₁, hcall, hd, rfl, hJ₁⟩ := hread s left hJ hne
    have hlen := List.length_pos_iff.mpr hd
    rw [ToServer.deliver, hcall, Option.bind_some]
    dsimp only
    by_cases hdone : left' = []
    · have hcomplete := (hend s₁ left' hJ₁).mp hdone
      rw [if_pos (.inr hcomplete)]
      refine ⟨_, _, rfl, ?_, ?_, hcomplete⟩
      · intro p hp
        rw [List.mem_singleton.mp hp]
        exact ⟨Int.natCast_pos.mpr hlen, rfl⟩
      · simp [hdone]
    · have hmore := mt (hend s₁ left' hJ₁).mpr hdone
      rw [if_neg (by omega)]
      rw [List.length_append] at hfuel
      obtain ⟨parts, s₂, hparts, hrest⟩ := ih s₁ left' hJ₁ hdone (by omega)
      rw [hparts]
      refine ⟨_, _, rfl, ?_, ?_, hrest.complete⟩
      · intro p hp
        rcases List.mem_cons.mp hp with rfl | hp
        · exact ⟨Int.natCast_pos.mpr hlen, rfl⟩
        · exact hrest.lengths p hp
      · rw [List.map_cons, List.flatten_cons, hrest.body]

end Rule

/-! ## A hit -/

/-- The bytes of a block in the cache file. -/
def IntervalPositionByteDisk.extent (file : Str) (w : IntervalPositionByteDisk) : Str :=
  readAt file w.position.toNat (w.b - w.a + 1).toNat

def extents (file : Str) (l : LintervalPositionByteDisk) : Str :=
  l.flatMap (IntervalPositionByteDisk.extent file)

/-- A block whose extent lies in the file. -/
def InFile (file : Str) (w : IntervalPositionByteDisk) : Prop :=
  w.a ≤ w.b ∧ 0 ≤ w.position ∧ w.lastPosition < file.length

instance (file : Str) (w : IntervalPositionByteDisk) : Decidable (InFile file w) :=
  inferInstanceAs (Decidable (w.a ≤ w.b ∧ 0 ≤ w.position ∧ w.lastPosition < file.length))

/-- A session that reads the block `cur`, and the blocks `rest` behind it. -/
structure FromFile (file : Str) (t : Transfer) (cur : IntervalPositionByteDisk)
    (rest : LintervalPositionByteDisk) : Prop where
  brange : t.brange = cur :: rest
  blocks : ∀ w ∈ cur :: rest, InFile file w
  limit : t.limit = cur.b - cur.a + 1
  acumulate : 0 ≤ t.acumulate ∧ t.acumulate < t.limit
  offset : t.offset = cur.position + t.acumulate
  isOpen : t.isOpen = true
  failed : t.failed = false
  size : t.filesended + (t.limit - t.acumulate) + getFileSize rest = t.filesizeneto

/-- What is left to read. -/
def unread (file : Str) (t : Transfer) (rest : LintervalPositionByteDisk) : Str :=
  readAt file t.offset.toNat (t.limit - t.acumulate).toNat ++ extents file rest

section Hit

variable {db : Db} {now : Int} {file : Str} {t : Transfer} {cur : IntervalPositionByteDisk}
  {rest : LintervalPositionByteDisk}

theorem length_extents {l : LintervalPositionByteDisk} (h : ∀ w ∈ l, InFile file w) :
    ((extents file l).length : Int) = getFileSize l := by
  induction l with
  | nil => rfl
  | cons w l ih =>
    obtain ⟨hab, hpos, hlast⟩ := h w List.mem_cons_self
    rw [IntervalPositionByteDisk.lastPosition] at hlast
    have hlen := ih fun v hv => h v (List.mem_cons_of_mem w hv)
    rw [extents, List.flatMap_cons, List.length_append, IntervalPositionByteDisk.extent,
      length_readAt (by omega), getFileSize]
    rw [extents] at hlen
    omega

theorem getFileSize_nonneg {l : LintervalPositionByteDisk} (h : ∀ w ∈ l, InFile file w) :
    0 ≤ getFileSize l := by
  rw [← length_extents h]
  exact Int.natCast_nonneg _

/-- A read inside the block returns as many bytes as it asks for. -/
theorem FromFile.readBytes (h : FromFile file t cur rest) :
    ∃ n : Nat, 0 < n ∧ t.acumulate + n ≤ t.limit ∧ (readAt file t.offset.toNat n).length = n ∧
      readBytes t file = (readAt file t.offset.toNat n, { t with offset := t.offset + n }) := by
  obtain ⟨hbrange, hblocks, hlimit, hacc, hoff, hopen, hfailed, hsize⟩ := h
  obtain ⟨hab, hpos, hlast⟩ := hblocks cur List.mem_cons_self
  rw [IntervalPositionByteDisk.lastPosition] at hlast
  unfold Haarp.readBytes MAXRECV
  simp only [hfailed, Bool.false_eq_true, if_false, false_or]
  generalize hbuf : (if t.acumulate + 14600 > t.limit then t.limit - t.acumulate else 14600) = tbuffer
  have htb : 0 < tbuffer ∧ t.acumulate + tbuffer ≤ t.limit := by
    rw [← hbuf]
    split <;> omega
  have hlen : (readAt file t.offset.toNat tbuffer.toNat).length = tbuffer.toNat :=
    length_readAt (by omega)
  refine ⟨tbuffer.toNat, by omega, by omega, hlen, ?_⟩
  rw [hlen, decide_eq_false (by omega)]

/-- Behind the read of `n` bytes, the session reads on or is at its end; what it has read is the start
of what was left. -/
theorem FromFile.advance (now : Int) (h : FromFile file t cur rest) {n : Nat}
    (hpos : 0 < n) (hfit : t.acumulate + n ≤ t.limit) :
    let t' := advance now { t with offset := t.offset + n } n
    ∃ left', readAt file t.offset.toNat n ++ left' = unread file t rest ∧
      ((∃ cur' rest', FromFile file t' cur' rest' ∧ left' = unread file t' rest') ∨
        (t'.brange = [] ∧ t'.filesended = t'.filesizeneto ∧ left' = [])) := by
  obtain ⟨hbrange, hblocks, hlimit, hacc, hoff, hopen, hfailed, hsize⟩ := h
  obtain ⟨hab, hpos', hlast⟩ := hblocks cur List.mem_cons_self
  simp only [Haarp.advance, hbrange]
  by_cases hfull : t.acumulate + n = t.limit
  · rw [if_pos hfull]
    have hall : (t.limit - t.acumulate).toNat = n := by omega
    refine ⟨extents file rest, by rw [unread, hall], ?_⟩
    cases rest with
    | nil =>
      rw [getFileSize] at hsize
      exact .inr ⟨rfl, by simp only; omega, rfl⟩
    | cons w rest =>
      have hw := hblocks w (List.mem_cons_of_mem cur List.mem_cons_self)
      have hwab := hw.1
      rw [getFileSize] at hsize
      refine .inl ⟨w, rest, ⟨rfl, fun v hv => hblocks v (List.mem_cons_of_mem cur hv), rfl, ?_, ?_,
        hopen, hfailed, ?_⟩, ?_⟩
      · exact ⟨le_rfl, by simp only; omega⟩
      · simp only
        omega
      · simp only
        omega
      · rw [unread, Int.sub_zero]
        rfl
  · rw [if_neg hfull]
    refine ⟨readAt file (t.offset.toNat + n) ((t.limit - t.acumulate).toNat - n) ++ extents file rest,
      ?_, .inl ⟨cur, rest, ⟨rfl, hblocks, hlimit, ?_, ?_, hopen, hfailed, ?_⟩, ?_⟩⟩
    · rw [unread, ← List.append_assoc, readAt_append, Nat.add_sub_cancel' (by omega)]
    · exact ⟨by simp only; omega, by simp only; omega⟩
    · simp only
      omega
    · simp only
      omega
    · rw [unread]
      dsimp only
      rw [show (t.offset + n).toNat = t.offset.toNat + n by omega,
        show (t.limit - (t.acumulate + n)).toNat = (t.limit - t.acumulate).toNat - n by omega]

/-- **What one call reads** of the plan. -/
theorem readHit_fromFile (db : Db) (now : Int) (h : FromFile file t cur rest) :
    ∃ part left', readHit db now t file = some part ∧ part.BodyLength = part.bodyT.length ∧
      part.bodyT ≠ [] ∧ part.bodyT ++ left' = unread file t rest ∧
      ((∃ cur' rest', FromFile file part.t cur' rest' ∧ left' = unread file part.t rest') ∨
        (part.t.filesended = part.t.filesizeneto ∧ left' = [])) := by
  obtain ⟨n, hpos, hfit, hlen, hread⟩ := h.readBytes
  obtain ⟨left', hleft, hnext⟩ := h.advance now hpos hfit
  have hne : readAt file t.offset.toNat n ≠ [] := by
    rw [← List.length_pos_iff, hlen]
    exact hpos
  have hempty : (readAt file t.offset.toNat n).isEmpty = false := by
    rwa [List.isEmpty_eq_false_iff]
  have hblock : readBlock now t file =
      (readAt file t.offset.toNat n, Haarp.advance now { t with offset := t.offset + n } n) := by
    simp only [readBlock, hread, hempty, Bool.false_eq_true, if_false, hlen]
  have hopen : (if t.isOpen then some t else openHit now t) = some t := if_pos h.isOpen
  unfold readHit
  rw [hopen, Option.map_some, if_neg (by simp [h.isOpen]), hblock]
  generalize Haarp.advance now _ _ = t' at hnext ⊢
  simp only [hempty, Bool.false_eq_true, false_and, not_false_eq_true, true_and, or_false]
  rcases hnext with ⟨cur', rest', hnext, rfl⟩ | ⟨hnil, hsize, rfl⟩
  · have hcons : t'.brange.isEmpty = false := by
      rw [hnext.brange]
      rfl
    have hmore : t'.filesended ≠ t'.filesizeneto := by
      have := getFileSize_nonneg fun w hw => hnext.blocks w (List.mem_cons_of_mem cur' hw)
      have := hnext.size
      have := hnext.acumulate
      omega
    rw [if_neg (fun hh => hmore hh.2), if_neg (by simp [hcons, hmore])]
    exact ⟨_, _, rfl, rfl, hne, hleft, .inl ⟨cur', rest', hnext, rfl⟩⟩
  · have hnone : t'.brange.isEmpty = true := by
      rw [hnil]
      rfl
    rw [if_pos ⟨hnone, hsize⟩]
    exact ⟨_, _, rfl, rfl, hne, hleft, .inr ⟨hsize, rfl⟩⟩

theorem FromFile.more (h : FromFile file t cur rest) :
    unread file t rest ≠ [] ∧ t.filesended ≠ t.filesizeneto := by
  obtain ⟨n, hpos, hfit, hlen, -⟩ := h.readBytes
  obtain ⟨left', hleft, -⟩ := h.advance 0 hpos hfit
  refine ⟨fun hnil => ?_, ?_⟩
  · rw [hnil, List.append_eq_nil_iff] at hleft
    rw [hleft.1] at hlen
    exact absurd hlen.symm hpos.ne'
  · have := getFileSize_nonneg fun w hw => h.blocks w (List.mem_cons_of_mem cur hw)
    have := h.size
    omega

/-- A session that reads from the cache file and has `left` to deliver. -/
structure ToServer.Reads (s : ToServer) (left : Str) : Prop where
  mode : s.t.hit = true ∨ s.t.miss2hit = true
  stands : (∃ cur rest, FromFile s.file s.t cur rest ∧ left = unread s.file s.t rest) ∨
    (left = [] ∧ s.t.filesended = s.t.filesizeneto)

theorem ToServer.Reads.call (db : Db) (clock : Nat → Int) {s : ToServer} {left : Str}
    (h : s.Reads left) (hne : left ≠ []) :
    ∃ d left' s', s.readBodyPart db clock = some (d.length, d, s') ∧ d ≠ [] ∧ d ++ left' = left ∧
      s'.Reads left' := by
  obtain ⟨hmode, ⟨cur, rest, hfrom, rfl⟩ | ⟨hnil, -⟩⟩ := h
  · obtain ⟨part, left', hpart, hvalue, hd, hleft, hnext⟩ :=
      readHit_fromFile db (clock s.calls) hfrom
    obtain ⟨htold, hfile, -, -, hmode', -⟩ := readHit_told hpart
    have hlen := List.length_pos_iff.mpr hd
    have hmiss := hmode'.resolve_left (by omega)
    have hhit := (htold.frame (by omega)).hit
    simp only [ToServer.readBodyPart, Haarp.readBodyPart, if_pos hmode, hpart, Option.map_some, hvalue]
    refine ⟨_, left', _, rfl, hd, hleft, ?_, ?_⟩
    · rw [hhit, hmiss]
      exact hmode
    · rw [hfile]
      exact hnext.imp_right fun ⟨hsize, hnil⟩ => ⟨hnil, hsize⟩
  · exact absurd hnil hne

theorem ToServer.Reads.complete {s : ToServer} {left : Str} (h : s.Reads left) :
    left = [] ↔ s.t.filesended = s.t.filesizeneto := by
  obtain ⟨-, ⟨cur, rest, hfrom, rfl⟩ | ⟨hnil, hsize⟩⟩ := h
  · exact iff_of_false hfrom.more.1 hfrom.more.2
  · exact iff_of_true hnil hsize

/-- The first call opens the file at the first block. -/
theorem readHit_opens {plan : LintervalPositionByteDisk} (hclosed : t.isOpen = false)
    (hplan : t.lrangeswork = cur :: plan) (hpos : 0 ≤ cur.position) :
    readHit db now t file = readHit db now { t with
      passed := [], brange := cur :: plan, acumulate := 0, bwrite := false, isOpen := true
      failed := false, offset := cur.position, limit := cur.b - cur.a + 1, timerecord := now } file := by
  have hopen : (if t.isOpen then some t else openHit now t) = some { t with
      passed := [], brange := cur :: plan, acumulate := 0, bwrite := false, isOpen := true
      failed := false, offset := cur.position, limit := cur.b - cur.a + 1, timerecord := now } := by
    rw [if_neg (by simp [hclosed]), openHit, hplan]
    dsimp only
    rw [if_neg (by omega)]
  unfold readHit
  rw [hopen]
  rfl

/-- **A hit delivers its plan**: no call fails, and the parts are the extents of the blocks in the
cache file, one after the other. -/
theorem hit_delivers (db : Db) (clock : Nat → Int) {s : ToServer} {plan : LintervalPositionByteDisk}
    (hhit : s.t.hit = true) (hclosed : s.t.isOpen = false) (hplan : s.t.lrangeswork = plan)
    (hne : plan ≠ []) (hblocks : ∀ w ∈ plan, InFile s.file w) (hsent : s.t.filesended = 0)
    (hneto : s.t.filesizeneto = getFileSize plan) {fuel : Nat}
    (hfuel : (getFileSize plan).toNat ≤ fuel) :
    ∃ parts s', s.deliver db clock fuel = some (parts, s') ∧
      DeliversBody (extents s.file plan) parts s' := by
  obtain ⟨w, rest, rfl⟩ := List.exists_cons_of_ne_nil hne
  obtain ⟨hab, hpos, hlast⟩ := hblocks w List.mem_cons_self
  have hrest := getFileSize_nonneg fun v hv => hblocks v (List.mem_cons_of_mem w hv)
  have hsize := length_extents hblocks
  rw [getFileSize] at hneto hfuel hsize
  -- the state behind the opening of the file
  let s₁ : ToServer := { s with t := { s.t with
    passed := [], brange := w :: rest, acumulate := 0, bwrite := false, isOpen := true
    failed := false, offset := w.position, limit := w.b - w.a + 1, timerecord := clock s.calls } }
  have hreads : s₁.Reads (extents s.file (w :: rest)) := by
    refine ⟨.inl hhit, .inl ⟨w, rest, ⟨rfl, hblocks, rfl, ⟨le_rfl, ?_⟩, ?_, rfl, rfl, ?_⟩, ?_⟩⟩
    · simp only [s₁]
      omega
    · simp only [s₁]
      omega
    · simp only [s₁]
      omega
    · simp only [s₁, unread, Int.sub_zero]
      rfl
  have hcall : s.readBodyPart db clock = s₁.readBodyPart db clock := by
    have hhit₁ : s₁.t.hit = true := hhit
    simp only [ToServer.readBodyPart, Haarp.readBodyPart, hhit, hhit₁, true_or, if_true]
    rw [readHit_opens hclosed hplan hpos]
  have hleft : extents s.file (w :: rest) ≠ [] := by
    rw [← List.length_pos_iff]
    omega
  obtain ⟨parts, s', hparts, hdelivers⟩ := deliver_spec (fun _ _ h => h.call db clock)
    (fun _ _ h => h.complete) fuel s₁ _ hreads hleft (by omega)
  refine ⟨parts, s', ?_, hdelivers⟩
  cases fuel with
  | zero => omega
  | succ fuel => rwa [ToServer.deliver, hcall]

/-- Bytes 0 and 1 lie behind bytes 2 to 4 in the file. -/
theorem hit_delivers_two :
    ∃ parts s', ToServer.deliver succeeds (fun _ => 0) 5
        { t := .start ⟨true, [], ['f'], 0, 0, 0, false⟩ [⟨0, 1, 4⟩, ⟨2, 4, 0⟩] 0 4 0
          file := ['c', 'd', 'e', '-', 'a', 'b'], pieces := [], calls := 0 } = some (parts, s') ∧
      DeliversBody ['a', 'b', 'c', 'd', 'e'] parts s' :=
  hit_delivers succeeds (fun _ => 0) rfl rfl rfl (by decide) (by decide) rfl rfl (by decide)

end Hit

/-! ## A miss -/

section Miss

variable {β : Type} {view : Char → β} {R : Int → β} {range_min e k : Int} {s : ToServer}

theorem nextBlock_bodyT {db : Db} {now : Int} {t : Transfer} {file bodyT : Str} {part : BodyPart}
    (h : nextBlock db now t file bodyT = some part) : part.bodyT = bodyT := by
  unfold nextBlock at h
  split at h
  · cases h
    rfl
  · split at h
    · cases h
      rfl
    · obtain ⟨t₁, -, rfl⟩ := Option.map_eq_some_iff.mp h
      rfl

/-- A miss leaves the piece for the browser as it has come. -/
theorem readMiss_bodyT {db : Db} {now : Int} {t : Transfer} {file d : Str} {part : BodyPart}
    (h : readMiss db now t file (some d) = some part) : part.bodyT = d := by
  obtain ⟨t₁, -, h⟩ := Option.bind_eq_some_iff.mp h
  cases d with
  | nil =>
    cases h
    rfl
  | cons c d =>
    obtain ⟨out, -, h⟩ := Option.bind_eq_some_iff.mp h
    cases out with
    | overflow t₂ file₂ =>
      cases h
      rfl
    | fits t₂ file₂ body =>
      unfold writeTail writeBytes at h
      dsimp only at h
      split at h
      · exact nextBlock_bodyT h
      · cases h
        rfl

/-- Where a transfer stands after `k` bytes: it waits for a piece, it reads the rest from the cache
file, or it is complete. -/
inductive ToServer.Going {β : Type} (view : Char → β) (R : Int → β) (range_min e : Int) (s : ToServer)
    (k : Int) : Prop
  | receiving (miss : s.t.miss2hit = false) (unfailed : s.t.failed = false)
      (waits : Receiving view R range_min e s.t s.file) (sent : s.t.filesended = k)
      (nonempty : ∀ d ∈ s.pieces, d ≠ []) (carries : Carries view R (range_min + k) s.pieces.flatten)
      (size : k + s.pieces.flatten.length = s.t.filesizeneto)
  | serving {cur : IntervalPositionByteDisk} {rest : LintervalPositionByteDisk}
      (turned : s.t.miss2hit = true) (serves : Serving view R range_min e s.t cur rest s.file)
      (sent : s.t.filesended = k)
  | complete (settled : Settled s.t)
      (covered : ∀ n, range_min ≤ n → n < e → n ∈ storedBytes s.t.lranges)
      (sent : s.t.filesended = k) (whole : k = s.t.filesizeneto ∧ range_min + s.t.filesizeneto = e)

theorem ToServer.Going.sent (h : s.Going view R range_min e k) : s.t.filesended = k := by
  cases h with
  | receiving miss unfailed waits sent nonempty carries size => exact sent
  | serving turned serves sent => exact sent
  | complete settled covered sent whole => exact sent

/-- A call that delivers the next `n` bytes, as the part `b`. -/
structure ToServer.Moves {β : Type} (view : Char → β) (R : Int → β) (range_min e k : Int)
    (s : ToServer) (n : Int) (b : Str) (s' : ToServer) : Prop where
  positive : 0 < n
  length : n = b.length
  carries : Carries view R (range_min + k) b
  bound : k + n ≤ s.t.filesizeneto
  going : s'.Going view R range_min e (k + n)
  grows : Grows range_min e s.t.lranges s'.t.lranges
  frame : Frame s.t s'.t
  logged : Logged s.t s'.t

/-- A call that takes a piece. -/
theorem receiving_moves (db : Db) (clock : Nat → Int) (hmatch : s.t.r.isMatch = true)
    (hhit : s.t.hit = false) (hmiss : s.t.miss2hit = false) (hfailed : s.t.failed = false)
    (hwaits : Receiving view R range_min e s.t s.file) (hsent : s.t.filesended = k)
    (hne : ∀ d ∈ s.pieces, d ≠ []) (hcarries : Carries view R (range_min + k) s.pieces.flatten)
    (hsize : k + s.pieces.flatten.length = s.t.filesizeneto) (hk : k < s.t.filesizeneto) :
    ∃ n b s', s.readBodyPart db clock = some (n, b, s') ∧
      ((n < 0 ∧ range_min + s.t.filesizeneto ≠ e) ∨ s.Moves view R range_min e k n b s') := by
  obtain ⟨t, file, pieces, calls⟩ := s
  simp only at hmatch hhit hmiss hfailed hwaits hsent hne hcarries hsize hk ⊢
  cases pieces with
  | nil =>
    simp only [List.flatten_nil, List.length_nil] at hsize
    omega
  | cons d ds =>
    have hd := hne d List.mem_cons_self
    have hlen := List.length_pos_iff.mpr hd
    have hds : ∀ d ∈ ds, d ≠ [] := fun d' hd' => hne d' (List.mem_cons_of_mem d hd')
    rw [List.flatten_cons, List.length_append] at hsize
    rw [List.flatten_cons] at hcarries
    have hcarries_d : Carries view R (range_min + k) d := by
      have := hcarries.take d.length
      rwa [List.take_left] at this
    have hcarries_ds : Carries view R (range_min + (k + d.length)) ds.flatten := by
      have := hcarries.drop d.length
      rwa [List.drop_left, Int.add_assoc] at this
    have hmode : ¬ (t.hit = true ∨ t.miss2hit = true) := by
      rw [hhit, hmiss]
      decide
    obtain ⟨part, hpart, hspec, hgrows⟩ :=
      readMiss_spec db (clock calls) hwaits hd (hsent ▸ hcarries_d)
    obtain ⟨htold, hreading⟩ := readMiss_told hpart
    have hbody := readMiss_bodyT hpart
    simp only [ToServer.readBodyPart, Haarp.readBodyPart, if_neg hmode, hmatch, if_true,
      List.headD_cons, List.tail_cons, hpart, Option.map_some]
    refine ⟨_, _, _, rfl, ?_⟩
    have hend := hspec.sent_le.2.2
    have hmoves : part.BodyLength = d.length →
        (ToServer.mk part.t part.file ds (calls + 1)).Going view R range_min e (k + part.BodyLength) →
        ToServer.Moves view R range_min e k ⟨t, file, d :: ds, calls⟩ part.BodyLength part.bodyT
          ⟨part.t, part.file, ds, calls + 1⟩ := by
      intro hvalue hgoing
      exact ⟨by omega, by rw [hbody, hvalue], hbody ▸ hcarries_d, by simp only; omega, hgoing,
        hgrows.mono hend, htold.frame (by omega), htold.logged⟩
    cases hspec with
    | @inside cur rest value isOpen inside faithful sent =>
      have hneto := (htold.frame (by omega)).filesizeneto
      refine .inr (hmoves value ?_)
      rw [value]
      rcases Bool.eq_false_or_eq_true part.t.miss2hit with hm | hm
      · obtain ⟨hbw, hrest⟩ := inside.turned hm
        refine .serving hm ⟨inside, hbw, fun w hw => ?_, isOpen, hreading hfailed,
          faithful.mono fun n p hn => .inl hn⟩ (by simp only; omega)
        exact (inside.todo w hw).resolve_left fun hneg => absurd (hrest w hw) (by omega)
      · exact .receiving hm (hreading hfailed) (.opened isOpen inside faithful) (by simp only; omega)
          hds hcarries_ds (by simp only; omega)
    | complete value between done faithful sent whole =>
      have hneto := (htold.frame (by omega)).filesizeneto
      have htiles := between.tiles
      rw [done] at htiles
      have hlast : range_min + part.t.filesended = e := htiles
      refine .inr (hmoves value (.complete (.inl between.acumulate)
        (fun n hn hn' => between.covered n hn (by omega)) (by simp only; omega) ?_))
      simp only
      omega
    | failed value wellFormed acumulate faithful reason =>
      exact .inl ⟨by omega, by omega⟩

/-- A call that reads from the cache file. -/
theorem serving_moves (db : Db) (clock : Nat → Int) {cur : IntervalPositionByteDisk}
    {rest : LintervalPositionByteDisk} (hturned : s.t.miss2hit = true)
    (hserves : Serving view R range_min e s.t cur rest s.file) (hsent : s.t.filesended = k)
    (hle : e ≤ range_min + s.t.filesizeneto) :
    ∃ n b s', s.readBodyPart db clock = some (n, b, s') ∧
      ((n < 0 ∧ range_min + s.t.filesizeneto ≠ e) ∨ s.Moves view R range_min e k n b s') := by
  obtain ⟨part, hpart, hspec⟩ := readHit_spec db (clock s.calls) hserves
  obtain ⟨htold, hfile, hl, -, hmode', -⟩ := readHit_told hpart
  have hmode : s.t.hit = true ∨ s.t.miss2hit = true := .inr hturned
  simp only [ToServer.readBodyPart, Haarp.readBodyPart, if_pos hmode, hpart, Option.map_some]
  refine ⟨_, _, _, rfl, ?_⟩
  cases hspec with
  | @inside cur rest value positive carries serving sent =>
    have hmore := serving.inside.more
    have hframe := htold.frame (by omega)
    have hneto := hframe.filesizeneto
    have hm := hmode'.resolve_left (by omega)
    refine .inr ⟨positive, value, hsent ▸ carries, by omega, ?_, by rw [hl]; exact .refl, hframe,
      htold.logged⟩
    exact .serving (hm.trans hturned) (hfile ▸ serving) (by simp only; omega)
  | complete value positive carries done bwrite sent covered whole =>
    have hframe := htold.frame (by omega)
    have hneto := hframe.filesizeneto
    refine .inr ⟨positive, value, hsent ▸ carries, by omega, ?_, by rw [hl]; exact .refl, hframe,
      htold.logged⟩
    exact .complete (.inr bwrite) covered (by simp only; omega) (by simp only; omega)
  | failed value reason => exact .inl ⟨by omega, by omega⟩

/-- **What one call of a transfer does**: it delivers the next bytes, unless the plan is not as long as
the response. -/
theorem ToServer.Going.call (h : s.Going view R range_min e k) (db : Db) (clock : Nat → Int)
    (hmatch : s.t.r.isMatch = true) (hhit : s.t.hit = false) (hk : k < s.t.filesizeneto)
    (hle : e ≤ range_min + s.t.filesizeneto) :
    ∃ n b s', s.readBodyPart db clock = some (n, b, s') ∧
      ((n < 0 ∧ range_min + s.t.filesizeneto ≠ e) ∨ s.Moves view R range_min e k n b s') := by
  cases h with
  | receiving miss unfailed waits sent nonempty carries size =>
    exact receiving_moves db clock hmatch hhit miss unfailed waits sent nonempty carries size hk
  | serving turned serves sent => exact serving_moves db clock turned serves sent hle
  | complete settled covered sent whole => omega

/-- A transfer of the resource `R` that has `left` to deliver. -/
structure ToServer.Sends (R : Int → Char) (range_min e : Int) (s : ToServer) (left : Str) : Prop where
  isMatch : s.t.r.isMatch = true
  hit : s.t.hit = false
  whole : range_min + s.t.filesizeneto = e
  going : s.Going id R range_min e s.t.filesended
  carries : Carries id R (range_min + s.t.filesended) left
  size : range_min + s.t.filesended + left.length = e

/-- Two pieces of the resource from the same byte on: the shorter one is the start of the other. -/
theorem Carries.append_drop {R : Int → Char} {n : Int} {d body : Str} (hd : Carries id R n d)
    (hbody : Carries id R n body) (hle : d.length ≤ body.length) : d ++ body.drop d.length = body := by
  have htake : d = body.take d.length := by
    refine List.ext_getElem? fun i => ?_
    by_cases hi : i < d.length
    · have h₁ := hd i hi
      have h₂ := hbody i (by omega)
      rw [List.map_id] at h₁ h₂
      rw [List.getElem?_take, if_pos hi, h₁, h₂]
    · rw [List.getElem?_eq_none (by omega), List.getElem?_take, if_neg hi]
  conv_lhs => rw [htake, List.length_take, Nat.min_eq_left hle]
  exact List.take_append_drop d.length body

theorem ToServer.Sends.call {R : Int → Char} (db : Db) (clock : Nat → Int) {left : Str}
    (h : s.Sends R range_min e left) (hne : left ≠ []) :
    ∃ d left' s', s.readBodyPart db clock = some (d.length, d, s') ∧ d ≠ [] ∧ d ++ left' = left ∧
      s'.Sends R range_min e left' := by
  obtain ⟨hmatch, hhit, hwhole, hgoing, hcarries, hsize⟩ := h
  have hlen := List.length_pos_iff.mpr hne
  obtain ⟨n, b, s', hcall, hfailed | hmoves⟩ :=
    hgoing.call db clock hmatch hhit (by omega) (by omega)
  · exact absurd hwhole hfailed.2
  · obtain ⟨hpos, hn, hb, hbound, hgoing', -, hframe, -⟩ := hmoves
    have hsent := hgoing'.sent
    have hdrop := hb.append_drop hcarries (by omega)
    refine ⟨b, left.drop b.length, s', hn ▸ hcall, ?_, hdrop, ?_⟩
    · rw [← List.length_pos_iff]
      omega
    · rw [← hsent] at hgoing'
      have hcarries' := hcarries.drop b.length
      rw [show range_min + s.t.filesended + (b.length : Int) = range_min + s'.t.filesended by omega]
        at hcarries'
      refine ⟨by rw [hframe.r]; exact hmatch, hframe.hit.trans hhit, ?_, hgoing', hcarries', ?_⟩
      · rw [hframe.filesizeneto]
        exact hwhole
      · rw [List.length_drop]
        omega

theorem ToServer.Sends.complete {R : Int → Char} {left : Str} (h : s.Sends R range_min e left) :
    left = [] ↔ s.t.filesended = s.t.filesizeneto := by
  have hsize := h.size
  have hwhole := h.whole
  rw [← List.length_eq_zero_iff]
  omega

/-- The first call opens the file, whether or not a read of it has failed before. -/
theorem readMiss_opens {db : Db} {now : Int} {t : Transfer} {file : Str} {recv : Option Str}
    (hclosed : t.isOpen = false) :
    readMiss db now t file recv = readMiss db now { t with failed := false } file recv := by
  have hopen : (if t.isOpen then some t else openMiss t) = openMiss t := if_neg (by simp [hclosed])
  have hopen' : (if t.isOpen then some { t with failed := false } else openMiss { t with failed := false }) =
      openMiss t := if_neg (by simp [hclosed])
  unfold readMiss
  rw [hopen, hopen']

/-- **A miss delivers what the server sends**, also where it turns into a hit: no call fails, and the
parts, from the server and from the cache file, make up the body. -/
theorem switch_delivers (db : Db) (clock : Nat → Int) {R : Int → Char}
    {l plan : LintervalPositionByteDisk} {x y : Int} (hl : WellFormed l)
    (hholds : Holds id R (Placed l) s.file) (h₀ : 0 ≤ x) (hxy : x ≤ y)
    (htiles : TilesBytes x plan (y + 1)) (hblocks : ∀ w ∈ plan, Missing l w ∨ InStored l w)
    (hstart : s.t.Starts l plan) (hmatch : s.t.r.isMatch = true) (hmiss : s.t.hit = false)
    (hneto : s.t.filesizeneto = y - x + 1) (hne : ∀ d ∈ s.pieces, d ≠ [])
    (hbody : Carries id R x s.pieces.flatten) (hsize : (s.pieces.flatten.length : Int) = y - x + 1)
    {fuel : Nat} (hfuel : (y - x + 1).toNat ≤ fuel) :
    ∃ parts s', s.deliver db clock fuel = some (parts, s') ∧
      DeliversBody s.pieces.flatten parts s' := by
  -- whether a read has failed before the file is opened makes no difference
  let s₁ : ToServer := { s with t := { s.t with failed := false } }
  have hstart₁ : s₁.t.Starts l plan := { hstart with }
  have hsent : s₁.t.filesended = 0 := hstart.filesended
  have hbody₁ : Carries id R (x + s₁.t.filesended) s₁.pieces.flatten := by
    rwa [hsent, Int.add_zero]
  have hneto₁ : s₁.t.filesizeneto = y - x + 1 := hneto
  have hsize₁ : (s₁.pieces.flatten.length : Int) = y - x + 1 := hsize
  have hgoing : s₁.Going id R x (y + 1) s₁.t.filesended :=
    .receiving hstart.miss2hit rfl (hstart₁.receiving hl hholds h₀ (by omega) htiles hblocks) rfl hne
      hbody₁ (by omega)
  have hsends : s₁.Sends R x (y + 1) s.pieces.flatten :=
    ⟨hmatch, hmiss, by omega, hgoing, hbody₁, by omega⟩
  have hcall : s.readBodyPart db clock = s₁.readBodyPart db clock := by
    have hmode : ¬ (s.t.hit = true ∨ s.t.miss2hit = true) := by simp [hmiss, hstart.miss2hit]
    have hmode₁ : ¬ (s₁.t.hit = true ∨ s₁.t.miss2hit = true) := hmode
    have hmatch₁ : s₁.t.r.isMatch = true := hmatch
    simp only [ToServer.readBodyPart, Haarp.readBodyPart, if_neg hmode, if_neg hmode₁, hmatch, hmatch₁,
      if_true]
    rw [readMiss_opens hstart.isOpen]
  have hleft : s.pieces.flatten ≠ [] := by
    rw [← List.length_pos_iff]
    omega
  obtain ⟨parts, s', hparts, hdelivers⟩ := deliver_spec (fun _ _ h => h.call db clock)
    (fun _ _ h => h.complete) fuel s₁ _ hsends hleft (by omega)
  refine ⟨parts, s', ?_, hdelivers⟩
  cases fuel with
  | zero => omega
  | succ fuel => rwa [ToServer.deliver, hcall]

/-- Bytes 0 to 4 come from the server with two of the stored ones, and the other three from the file. -/
theorem switch_delivers_seven :
    ∃ parts s', ToServer.deliver succeeds (fun _ => 0) 10
        { t := .start ⟨true, [], ['f'], 0, 0, 0, false⟩ [⟨5, 9, 0⟩] 0 9 0
          file := List.replicate 5 'x'
          pieces := [List.replicate 5 'y' ++ List.replicate 2 'x', List.replicate 3 'x']
          calls := 0 } = some (parts, s') ∧
      DeliversBody (List.replicate 5 'y' ++ List.replicate 5 'x') parts s' := by
  have hwf : WellFormed [⟨5, 9, 0⟩] := by decide
  obtain ⟨htiles, hblocks, -⟩ := getRangeWork_spec hwf.toStoredList (Int.le_refl 0)
    (by decide : (0 : Int) ≤ 9)
  refine switch_delivers (s := { t := .start ⟨true, [], ['f'], 0, 0, 0, false⟩ [⟨5, 9, 0⟩] 0 9 0
                                 file := List.replicate 5 'x'
                                 pieces := [List.replicate 5 'y' ++ List.replicate 2 'x',
                                   List.replicate 3 'x']
                                 calls := 0 })
    succeeds (fun _ => 0) (R := fun n => if n < 5 then 'y' else 'x') hwf ?_ (Int.le_refl 0)
    (by decide : (0 : Int) ≤ 9) htiles hblocks (start_starts _ _ _ _ _) rfl rfl rfl (by decide)
    (by unfold Carries; decide) (by decide) (by decide)
  rintro n p ⟨x, hx, hxa, hxb, rfl⟩
  cases List.mem_singleton.mp hx
  simp only at hxa hxb ⊢
  rw [cell_eq_some, List.map_id, List.getElem?_replicate_of_lt (by omega), if_neg (by omega)]
  exact ⟨by omega, rfl⟩

end Miss

end Haarp
