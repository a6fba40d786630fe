import Haarp.Http.ReadHeader

/-!
# Reading a chunked body

`HTTPHandler::ReadBodyPart` returns one chunk of a body for each call. It looks for the end of the
size line in the piece that is in `RecvBuf`; when it is not there, the next look appends the same
piece again.

`readBodyPart_segmentation`: successive calls return the payloads exactly when no piece ends inside
a size line, or between the two bytes behind a payload.
-/

namespace Haarp

open Base

def hexDigits : Str :=
  ['0', '1', '2', '3', '4', '5', '6', '7', '8', '9', 'A', 'B', 'C', 'D', 'E', 'F']

/-- `sscanf("%x")` of digits in upper case. -/
def hexValue (digits : Str) : Nat := digits.foldl (fun n c => 16 * n + hexDigits.idxOf c) 0

namespace SocketHandler

/-- The loop of `ReadBodyPart` for the size line: `csize`, or `none` where `ReadBodyPart` returns
`-1`. -/
def readChunkSize : Nat → Nat → Str → SocketHandler → Option (Option Nat × SocketHandler)
  | 0, _, _, _ => none
  | fuel + 1, received, Temp, s =>
    let (read, Temp, s) := s.recv Temp false
    if read < 1 then some (none, s)
    else
      match find crlf Temp with
      | some position =>
        if position = 0 then
          let (_, _, s) := s.recvLength Temp 2
          readChunkSize fuel received [] s
        else
          let UTemp := UpperCase Temp
          match findFirstNotOf hexDigits UTemp with
          | none => some (none, s)
          | some hpos =>
            if hpos < 1 ∨ hpos > 7 then some (none, s)
            else
              let csize := hexValue (UTemp.take hpos)
              let (_, _, s) := s.recvLength Temp (position + 2)
              some (some csize, s)
      | none =>
        let received := received + read.toNat
        if received > 256 then some (none, s) else readChunkSize fuel received Temp s

/-- `ReadBodyPart(bodyT, Chunked)`: the value, and `bodyT`. -/
def readBodyPart (fuel : Nat) (Chunked : Bool) (s : SocketHandler) :
    Option (Int × Str × SocketHandler) :=
  if Chunked = false then
    let (count, bodyT, s) := s.recv [] true
    some (if count < 0 then -1 else count, bodyT, s)
  else
    (readChunkSize fuel 0 [] s).map fun (csize, s) =>
      match csize with
      | none => (-1, [], s)
      | some csize =>
        if csize = 0 then (0, [], s)
        else if csize > 1048576 then (-1, [], s)
        else
          let (ok, bodyT, s) := s.recvLength [] csize
          (if ok then csize else -1, bodyT, s)

/-- The values and the bodies of `n` successive calls. -/
def readChunks (fuel : Nat) : Nat → SocketHandler → Option (List (Int × Str))
  | 0, _ => some []
  | n + 1, s =>
    (readBodyPart fuel true s).bind fun (value, bodyT, s) =>
      (readChunks fuel n s).map ((value, bodyT) :: ·)

end SocketHandler

/-! ## Chunks -/

/-- A size of at most seven hexadecimal digits, in any case, with an optional extension. -/
structure SizeLine where
  digits : Str
  extension : Str
  ne_nil : digits ≠ []
  length_le : digits.length ≤ 7
  hex : ∀ c ∈ digits, upper c ∈ hexDigits
  not_hex : ∀ c, extension.head? = some c → upper c ∉ hexDigits
  not_crlf : ¬ crlf <:+: extension

def SizeLine.size (line : SizeLine) : Nat := hexValue (UpperCase line.digits)

def SizeLine.text (line : SizeLine) : Str := line.digits ++ line.extension ++ crlf

structure Chunk where
  line : SizeLine
  payload : Str
  ne_nil : payload ≠ []
  length_le : payload.length ≤ 1048576
  size_eq : line.size = payload.length

/-- A chunk without the `CRLF` behind its payload. -/
def Chunk.text (chunk : Chunk) : Str := chunk.line.text ++ chunk.payload

/-- The chunks, each with a `CRLF` behind it, and a line of size zero. -/
def encode (last : SizeLine) : List Chunk → Str
  | [] => last.text
  | chunk :: chunks => chunk.text ++ crlf ++ encode last chunks

/-- The values and the bodies for these chunks: each payload with its length, then `0`. -/
def decoded (chunks : List Chunk) : List (Int × Str) :=
  chunks.map (fun chunk => ((chunk.payload.length : Int), chunk.payload)) ++ [(0, [])]

/-- No piece ends inside a size line, or inside the `CRLF` behind a payload; the first size line is at
the offset `n`. -/
def Unbroken (l : List Str) (last : SizeLine) : Nat → List Chunk → Prop
  | n, [] => Whole l n last.text.length
  | n, chunk :: chunks =>
    Whole l n chunk.line.text.length ∧ Whole l (n + chunk.text.length) 2 ∧
      Unbroken l last (n + chunk.text.length + 2) chunks

namespace SocketHandler

/-! ## The size line -/

theorem crlf_prefix_iff {c : Char} {w : Str} :
    crlf <+: c :: w ↔ c = '\r' ∧ w.head? = some '\n' := by
  cases w <;> simp [crlf, List.cons_prefix_cons, eq_comm]

theorem not_crlf_append {a b : Str} (ha : ¬ crlf <:+: a) (hb : ¬ crlf <:+: b)
    (hhead : b.head? ≠ some '\n') : ¬ crlf <:+: a ++ b := by
  induction a with
  | nil => exact hb
  | cons c a ih =>
    intro h
    rcases List.infix_cons_iff.mp h with h | h
    · obtain ⟨rfl, hnext⟩ := crlf_prefix_iff.mp h
      cases a with
      | nil => exact hhead hnext
      | cons d a => exact ha (crlf_prefix_iff (w := d :: a) |>.mpr ⟨rfl, hnext⟩).isInfix
    · exact ih (fun h => ha (List.infix_cons h)) h

/-- The first `CRLF`, behind a text without one. -/
theorem find_crlf_append {w : Str} (hw : ¬ crlf <:+: w) (more : Str) :
    find crlf (w ++ crlf ++ more) = some w.length := by
  induction w with
  | nil => exact find_eq_zero.mpr (List.prefix_append crlf more)
  | cons c w ih =>
    have hhead : ¬ crlf.isPrefixOf (c :: (w ++ crlf ++ more)) = true := by
      intro h
      obtain ⟨rfl, hnext⟩ := crlf_prefix_iff.mp (List.isPrefixOf_iff_prefix.mp h)
      cases w with
      | nil => exact absurd hnext (by simp [crlf])
      | cons d w => exact hw (crlf_prefix_iff (w := d :: w) |>.mpr ⟨rfl, hnext⟩).isInfix
    rw [List.cons_append, List.cons_append, find, if_neg hhead,
      ih fun h => hw (List.infix_cons h)]
    rfl

/-- A piece without a `CRLF` is looked at again and again. -/
theorem readChunkSize_stuck {fuel received : Nat} {Temp p : Str} {l : List Str} {s : SocketHandler}
    (hparts : s.parts = p :: l) (hTemp : ¬ crlf <:+: Temp) (hp : ¬ crlf <:+: p)
    (hhead : p.head? ≠ some '\n') (hreceived : received ≤ 256) (hfuel : 256 < received + fuel) :
    ∃ s', readChunkSize fuel received Temp s = some (none, s') := by
  induction fuel generalizing received Temp s with
  | zero => omega
  | succ fuel ih =>
    obtain ⟨s₁, hrecv, -, hparts₁, -⟩ := recv_look hparts Temp
    have hpos := List.length_pos_iff.mpr (s.parts_ne_nil p (hparts ▸ List.mem_cons_self))
    have hmany : ¬ (p.length : Int) < 1 := by omega
    have hnot := not_crlf_append hTemp hp hhead
    rw [readChunkSize]
    simp only [hrecv, hmany, if_false, find_eq_none hnot, Int.toNat_natCast]
    split
    · exact ⟨s₁, rfl⟩
    · exact ih hparts₁ hnot (by omega) (by omega)

section Line

variable (line : SizeLine)

theorem upper_cr_notMem : upper '\r' ∉ hexDigits := by decide

theorem upper_lf_notMem : upper '\n' ∉ hexDigits := by decide

/-- A size line starts with a digit, and has no `CRLF` before its end. -/
theorem line_not_crlf : ¬ crlf <:+: line.digits ++ line.extension ∧
    line.text.head? ≠ some '\n' := by
  constructor
  · have hdigits : ∀ digits : Str, (∀ c ∈ digits, upper c ∈ hexDigits) →
        ¬ crlf <:+: digits ++ line.extension := by
      intro digits hhex
      induction digits with
      | nil => exact line.not_crlf
      | cons c digits ih =>
        intro h
        rcases List.infix_cons_iff.mp h with h | h
        · obtain ⟨rfl, -⟩ := crlf_prefix_iff.mp h
          exact upper_cr_notMem (hhex _ List.mem_cons_self)
        · exact ih (fun d hd => hhex d (List.mem_cons_of_mem c hd)) h
    exact hdigits _ line.hex
  · obtain ⟨c, digits, hdigits⟩ := List.exists_cons_of_ne_nil line.ne_nil
    have hc := line.hex c (hdigits ▸ List.mem_cons_self)
    simp only [SizeLine.text, hdigits, List.cons_append, List.head?_cons, ne_eq, Option.some.injEq]
    rintro rfl
    exact upper_lf_notMem hc

/-- The digits are those up to the first other character. -/
theorem findFirstNotOf_line (more : Str) :
    findFirstNotOf hexDigits (UpperCase (line.text ++ more)) = some line.digits.length := by
  have hnext : ∃ c w, line.extension ++ crlf ++ more = c :: w ∧ upper c ∉ hexDigits := by
    cases hext : line.extension with
    | nil => exact ⟨'\r', _, rfl, upper_cr_notMem⟩
    | cons c w => exact ⟨c, _, rfl, line.not_hex c (by rw [hext]; rfl)⟩
  obtain ⟨c, w, hw, hc⟩ := hnext
  have htext : line.text ++ more = line.digits ++ c :: w := by
    rw [← hw, SizeLine.text]
    simp only [List.append_assoc]
  have hhex := line.hex
  rw [htext]
  generalize line.digits = digits at hhex
  induction digits with
  | nil => exact findFirstNotOf_cons hc
  | cons d digits ih =>
    have hd : ¬ decide (upper d ∉ hexDigits) = true := by
      simpa using hhex d List.mem_cons_self
    have hrest := ih fun e he => hhex e (List.mem_cons_of_mem d he)
    rw [findFirstNotOf, UpperCase] at hrest ⊢
    rw [List.cons_append, List.map_cons, List.findIdx?_cons, if_neg hd, hrest]
    rfl

variable {fuel : Nat} {lead tail : Str} {s : SocketHandler}

/-- The line is in one piece. -/
theorem readChunkSize_line {line : SizeLine} {p : Str} {l : List Str} {received : Nat}
    (hparts : s.parts = p :: l) (hs : s.stream = line.text ++ tail)
    (hp : line.text.length ≤ p.length) :
    ∃ s', readChunkSize (fuel + 1) received [] s = some (some line.size, s') ∧
      s'.parts = dropFront line.text.length s.parts := by
  obtain ⟨s₁, hrecv, -, hparts₁, hstream₁⟩ := recv_look hparts []
  have hpos := List.length_pos_iff.mpr (s.parts_ne_nil p (hparts ▸ List.mem_cons_self))
  have hmany : ¬ (p.length : Int) < 1 := by omega
  obtain ⟨more, rfl⟩ : ∃ more, p = line.text ++ more := by
    have hflat : p ++ l.flatten = line.text ++ tail := by
      rw [← List.flatten_cons, ← hparts, flatten_parts, hs]
    obtain ⟨more, hmore⟩ := List.prefix_of_prefix_length_le
      (List.prefix_append line.text tail) (hflat ▸ List.prefix_append p l.flatten) hp
    exact ⟨more, hmore.symm⟩
  have hfind : find crlf (line.text ++ more) = some (line.digits ++ line.extension).length :=
    find_crlf_append (line_not_crlf line).1 more
  have hdigits := List.length_pos_iff.mpr line.ne_nil
  have hposition : ¬ (line.digits ++ line.extension).length = 0 := by
    rw [List.length_append]
    omega
  have hlength : (line.digits ++ line.extension).length + 2 = line.text.length := by
    simp [SizeLine.text, crlf, Nat.add_assoc]
  have hhpos : ¬ (line.digits.length < 1 ∨ line.digits.length > 7) := by
    have hle := line.length_le
    omega
  have hsize : hexValue ((UpperCase (line.text ++ more)).take line.digits.length) = line.size := by
    rw [SizeLine.size, UpperCase, ← List.map_take, SizeLine.text]
    simp only [List.append_assoc, List.take_left]
    rfl
  obtain ⟨s₂, hrecv₂, hparts₂⟩ := recvLength_parts
    (show line.text.length ≤ s₁.stream.length by rw [hstream₁, hs, List.length_append]; omega)
    (line.text ++ more)
  refine ⟨s₂, ?_, by rw [hparts₂, hparts₁, hparts]⟩
  rw [readChunkSize]
  simp only [hrecv, hmany, if_false, List.nil_append, hfind, hposition, findFirstNotOf_line line more,
    hhpos, hlength, hrecv₂, hsize]

/-- A size line at the front of the stream is read exactly when it is in one piece. -/
theorem readChunkSize_front {line : SizeLine} (hs : s.stream = line.text ++ tail)
    (hfuel : 256 < fuel) :
    (Whole s.parts 0 line.text.length ∧ ∃ s', readChunkSize fuel 0 [] s = some (some line.size, s') ∧
      s'.parts = dropFront line.text.length s.parts) ∨
    (¬ Whole s.parts 0 line.text.length ∧ ∃ s', readChunkSize fuel 0 [] s = some (none, s')) := by
  have htext : line.text = line.digits ++ line.extension ++ ['\r'] ++ ['\n'] := by
    simp [SizeLine.text, crlf]
  cases hparts : s.parts with
  | nil =>
    have hlen := congrArg List.length hs
    rw [← flatten_parts, hparts, htext] at hlen
    simp at hlen
  | cons p l =>
    have hp := s.parts_ne_nil p (hparts ▸ List.mem_cons_self)
    have hflat : p ++ l.flatten = line.text ++ tail := by
      rw [← List.flatten_cons, ← hparts, flatten_parts, hs]
    rw [whole_iff_le_length hp]
    rcases Nat.lt_or_ge p.length line.text.length with hlt | hge
    · refine .inr ⟨Nat.not_le.mpr hlt, ?_⟩
      have hleads : p <+: line.digits ++ line.extension ++ ['\r'] := by
        refine List.prefix_of_prefix_length_le (hflat ▸ List.prefix_append p l.flatten) ?_ ?_
        · rw [htext, List.append_assoc _ ['\n'] tail]
          exact List.prefix_append _ _
        · rw [htext, List.length_append, List.length_singleton] at hlt
          exact Nat.le_of_lt_succ hlt
      have hnot : ¬ crlf <:+: line.digits ++ line.extension ++ ['\r'] :=
        not_crlf_append (line_not_crlf line).1 (by decide) (by decide)
      refine readChunkSize_stuck hparts (by decide) (fun h => hnot (h.trans hleads.isInfix)) ?_
        (Nat.zero_le _) (by omega)
      have hhead := congrArg List.head? hflat
      rw [List.head?_append_of_ne_nil _ hp, List.head?_append_of_ne_nil _ (by simp [htext])] at hhead
      exact hhead ▸ (line_not_crlf line).2
    · obtain ⟨fuel, rfl⟩ : ∃ k, fuel = k + 1 := ⟨fuel - 1, by omega⟩
      refine .inl ⟨hge, ?_⟩
      rw [← hparts]
      exact readChunkSize_line hparts hs hge

/-- A `CRLF` in one piece is taken from the stream, and the reading goes on behind it. -/
theorem readChunkSize_crlf {more behind : Str} {l : List Str} (hparts : s.parts = (crlf ++ more) :: l)
    (hs : s.stream = crlf ++ behind) (fuel : Nat) :
    ∃ s', readChunkSize (fuel + 1) 0 [] s = readChunkSize fuel 0 [] s' ∧ s'.stream = behind ∧
      s'.parts = dropFront crlf.length ((crlf ++ more) :: l) := by
  obtain ⟨s₁, hrecv, -, hparts₁, hstream₁⟩ := recv_look hparts []
  have hmany : ¬ ((crlf ++ more).length : Int) < 1 := by
    simp only [crlf, List.length_append, List.length_cons]
    omega
  have hfind : find crlf (crlf ++ more) = some 0 := find_eq_zero.mpr (List.prefix_append _ _)
  obtain ⟨s₂, hrecv₂, hparts₂⟩ := recvLength_parts
    (show 2 ≤ s₁.stream.length by rw [hstream₁, hs]; simp [crlf]) (crlf ++ more)
  refine ⟨s₂, ?_, ?_, ?_⟩
  · rw [readChunkSize]
    simp only [hrecv, hmany, if_false, List.nil_append, hfind, if_true, hrecv₂]
  · rw [stream_of_parts hparts₂, hstream₁, hs]
    rfl
  · rw [hparts₂, hparts₁]
    rfl

/-- The `CRLF` behind the payload before is read first, and has to be in one piece too. -/
theorem readChunkSize_spec {line : SizeLine} (hs : s.stream = lead ++ line.text ++ tail)
    (hlead : lead = [] ∨ lead = crlf) (hfuel : 257 < fuel) :
    ((Whole s.parts 0 lead.length ∧ Whole s.parts lead.length line.text.length) ∧
      ∃ s', readChunkSize fuel 0 [] s = some (some line.size, s') ∧
        s'.parts = dropFront (lead.length + line.text.length) s.parts) ∨
    (¬ (Whole s.parts 0 lead.length ∧ Whole s.parts lead.length line.text.length) ∧
      ∃ s', readChunkSize fuel 0 [] s = some (none, s')) := by
  rcases hlead with rfl | rfl
  · have hnone : Whole s.parts 0 0 := fun k _ hk => absurd hk (Nat.not_lt_zero k)
    simpa [hnone] using readChunkSize_front hs (show 256 < fuel by omega)
  · obtain ⟨fuel, rfl⟩ : ∃ k, fuel = k + 1 := ⟨fuel - 1, by omega⟩
    cases hparts : s.parts with
    | nil =>
      have hlen := congrArg List.length hs
      rw [← flatten_parts, hparts] at hlen
      simp [crlf] at hlen
    | cons p l =>
      have hp := s.parts_ne_nil p (hparts ▸ List.mem_cons_self)
      have hflat : p ++ l.flatten = crlf ++ (line.text ++ tail) := by
        rw [← List.flatten_cons, ← hparts, flatten_parts, hs, List.append_assoc]
      have hpos := List.length_pos_iff.mpr hp
      have hmany : ¬ (p.length : Int) < 1 := by omega
      rw [whole_iff_le_length hp]
      rcases Nat.lt_or_ge p.length crlf.length with hlt | hge
      · refine .inr ⟨fun h => absurd h.1 (Nat.not_le.mpr hlt), ?_⟩
        have hone : p = ['\r'] := by
          have htake := congrArg (List.take 1) hflat
          have hlength : p.length = 1 := by
            simp [crlf] at hlt
            omega
          rw [List.take_append_of_le_length (by omega), List.take_of_length_le (by omega)] at htake
          exact htake
        refine readChunkSize_stuck hparts (by decide) ?_ ?_ (Nat.zero_le _) (by omega) <;>
          rw [hone] <;> decide
      · obtain ⟨more, rfl⟩ := List.prefix_of_prefix_length_le
          (List.prefix_append crlf (line.text ++ tail))
          (hflat ▸ List.prefix_append p l.flatten) hge
        rw [List.append_assoc] at hs
        obtain ⟨s₂, hstep, hs₂, hparts₂⟩ := readChunkSize_crlf hparts hs fuel
        have hwhole : Whole s₂.parts 0 line.text.length ↔
            Whole ((crlf ++ more) :: l) crlf.length line.text.length := by
          rw [hparts₂, whole_dropFront]
          rfl
        have hdrop : dropFront (crlf.length + line.text.length) ((crlf ++ more) :: l) =
            dropFront line.text.length s₂.parts := by
          rw [hparts₂, dropFront_dropFront]
        rw [hstep, ← hwhole, hdrop]
        rcases readChunkSize_front hs₂ (show 256 < fuel by omega) with ⟨h, hread⟩ | ⟨h, hread⟩
        · exact .inl ⟨⟨hge, h⟩, hread⟩
        · exact .inr ⟨fun hboth => h hboth.2, hread⟩

end Line

/-! ## The calls -/

theorem unbroken_dropFront {last : SizeLine} (m n : Nat) (l : List Str) (chunks : List Chunk) :
    Unbroken (dropFront m l) last n chunks ↔ Unbroken l last (m + n) chunks := by
  induction chunks generalizing n with
  | nil => exact whole_dropFront m n _ l
  | cons chunk chunks ih =>
    simp only [Unbroken, whole_dropFront, ih, Nat.add_assoc]

/-- One call for a chunk: its payload, when its size line is in one piece. -/
theorem readBodyPart_chunk {fuel : Nat} {s : SocketHandler} {lead tail : Str} {chunk : Chunk}
    (hs : s.stream = lead ++ chunk.text ++ tail) (hlead : lead = [] ∨ lead = crlf)
    (hfuel : 257 < fuel) :
    ((Whole s.parts 0 lead.length ∧ Whole s.parts lead.length chunk.line.text.length) ∧
      ∃ s' : SocketHandler,
        readBodyPart fuel true s = some ((chunk.payload.length : Int), chunk.payload, s') ∧
        s'.parts = dropFront (lead.length + chunk.text.length) s.parts) ∨
    (¬ (Whole s.parts 0 lead.length ∧ Whole s.parts lead.length chunk.line.text.length) ∧
      ∃ s', readBodyPart fuel true s = some (-1, [], s')) := by
  have hs' : s.stream = lead ++ chunk.line.text ++ (chunk.payload ++ tail) := by
    rw [hs, Chunk.text]
    simp only [List.append_assoc]
  rcases readChunkSize_spec hs' hlead hfuel with ⟨hwhole, s₁, hread, hparts⟩ | ⟨hwhole, s₁, hread⟩
  · refine .inl ⟨hwhole, ?_⟩
    have hs₁ : s₁.stream = chunk.payload ++ tail := by
      rw [stream_of_parts hparts, hs', ← List.length_append, List.drop_left]
    obtain ⟨s₂, hrecv, hparts₂⟩ := recvLength_parts
      (show chunk.payload.length ≤ s₁.stream.length by rw [hs₁, List.length_append]; omega) []
    have hpos := List.length_pos_iff.mpr chunk.ne_nil
    have hzero : ¬ chunk.payload.length = 0 := by omega
    have hlarge : ¬ chunk.payload.length > 1048576 := Nat.not_lt.mpr chunk.length_le
    refine ⟨s₂, ?_, ?_⟩
    · rw [readBodyPart, hread]
      simp [chunk.size_eq, hzero, hlarge, hrecv, hs₁]
    · rw [hparts₂, hparts, dropFront_dropFront, Chunk.text, List.length_append, Nat.add_assoc]
  · refine .inr ⟨hwhole, s₁, ?_⟩
    rw [readBodyPart, hread]
    rfl

/-- The calls for a stream that may start with the `CRLF` behind a payload. -/
theorem readChunks_iff {fuel : Nat} {last : SizeLine} (hlast : last.size = 0) (hfuel : 257 < fuel)
    {chunks : List Chunk} {s : SocketHandler} {lead rest : Str}
    (hs : s.stream = lead ++ encode last chunks ++ rest) (hlead : lead = [] ∨ lead = crlf) :
    readChunks fuel (chunks.length + 1) s = some (decoded chunks) ↔
      Whole s.parts 0 lead.length ∧ Unbroken s.parts last lead.length chunks := by
  induction chunks generalizing s lead with
  | nil =>
    rw [encode] at hs
    have hread : readChunks fuel 1 s =
        (readBodyPart fuel true s).map fun (value, bodyT, _) => [(value, bodyT)] := by
      rw [readChunks]
      cases readBodyPart fuel true s <;> rfl
    rw [List.length_nil, Nat.zero_add, hread, readBodyPart, Unbroken]
    rcases readChunkSize_spec hs hlead hfuel with ⟨hwhole, s₁, hread, -⟩ | ⟨hwhole, s₁, hread⟩
    · refine iff_of_true ?_ hwhole
      simp [hread, hlast, decoded]
    · refine iff_of_false ?_ hwhole
      simp [hread, decoded]
  | cons chunk chunks ih =>
    have hs' : s.stream = lead ++ chunk.text ++ (crlf ++ encode last chunks ++ rest) := by
      rw [hs, encode]
      simp only [List.append_assoc]
    rw [List.length_cons, readChunks, Unbroken, ← and_assoc]
    rcases readBodyPart_chunk hs' hlead hfuel with ⟨hwhole, s₁, hread, hparts⟩ | ⟨hwhole, s₁, hread⟩
    · have hs₁ : s₁.stream = crlf ++ encode last chunks ++ rest := by
        rw [stream_of_parts hparts, hs', ← List.length_append, List.drop_left]
      have hrest := ih hs₁ (.inr rfl)
      rw [hparts, whole_dropFront, unbroken_dropFront] at hrest
      rw [hread, and_iff_right hwhole]
      refine Iff.trans ?_ hrest
      simp [decoded]
    · refine iff_of_false ?_ fun h => hwhole h.1
      rw [hread]
      simp [decoded]

/-- **Chunks of a stream in pieces.** Successive calls return the payloads with their lengths, then
`0`, exactly when no piece ends inside a size line or inside the `CRLF` behind a payload. -/
theorem readBodyPart_segmentation {fuel : Nat} {last : SizeLine} {chunks : List Chunk}
    {s : SocketHandler} {rest : Str} (hlast : last.size = 0)
    (hs : s.stream = encode last chunks ++ rest) (hfuel : 257 < fuel) :
    readChunks fuel (chunks.length + 1) s = some (decoded chunks) ↔
      Unbroken s.parts last 0 chunks := by
  have h := readChunks_iff hlast hfuel hs (.inl rfl)
  have hnone : Whole s.parts 0 0 := fun k _ hk => absurd hk (Nat.not_lt_zero k)
  exact h.trans (and_iff_right hnone)

/-- A line of one digit. -/
def digitLine (c : Char) (hc : upper c ∈ hexDigits) : SizeLine where
  digits := [c]
  extension := []
  ne_nil := List.cons_ne_nil _ _
  length_le := Nat.le_add_left 1 6
  hex := fun d hd => List.mem_singleton.mp hd ▸ hc
  not_hex := nofun
  not_crlf := by decide

/-- The chunk `x`. -/
def oneByte : Chunk where
  line := digitLine '1' (by decide)
  payload := ['x']
  ne_nil := List.cons_ne_nil _ _
  length_le := by decide
  size_eq := by decide

/-- A chunk that comes in two pieces. -/
theorem readBodyPart_segmentation_split :
    readChunks 258 2 ⟨[], [⟨['1', '\r', '\n', 'x'], by decide⟩,
        ⟨['\r', '\n', '0', '\r', '\n'], by decide⟩], true⟩ = some (decoded [oneByte]) ↔
      Unbroken [['1', '\r', '\n', 'x'], ['\r', '\n', '0', '\r', '\n']]
        (digitLine '0' (by decide)) 0 [oneByte] :=
  @readBodyPart_segmentation 258 (digitLine '0' (by decide)) [oneByte] _ [] (by decide) rfl
    (by decide)

/-- The chunk `x` and a line of size zero, with the first digit in a piece of its own. -/
def tornSize : SocketHandler where
  RecvBuf := []
  pieces := [⟨['1'], by decide⟩, ⟨['\r', '\n', 'x', '\r', '\n', '0', '\r', '\n'], by decide⟩]
  closed := true

/-- A piece ends behind the size: the body is not read. -/
theorem readBodyPart_torn :
    ¬ ∀ (fuel : Nat) (last : SizeLine) (chunks : List Chunk) (s : SocketHandler) (rest : Str),
      last.size = 0 → s.stream = encode last chunks ++ rest → 257 < fuel →
      readChunks fuel (chunks.length + 1) s = some (decoded chunks) := by
  intro h
  have hread : readChunks 258 2 tornSize = some (decoded [oneByte]) :=
    h 258 (digitLine '0' (by decide)) [oneByte] tornSize [] (by decide) rfl (by decide)
  have hs : tornSize.stream =
      [] ++ encode (digitLine '0' (by decide)) [oneByte] ++ [] := rfl
  obtain ⟨-, hwhole, -⟩ := (readChunks_iff (by decide) (by decide) hs (.inl rfl)).mp hread
  exact hwhole 1 (by decide) (by decide) ⟨[['1']], by decide, rfl⟩

end SocketHandler
end Haarp
