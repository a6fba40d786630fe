import Haarp.Http.Socket

/-!
# Reading a header

`HTTPHandler::ReadHeader` reads up to the first empty line. It looks at a piece before it takes it:
`tempheader` has all pieces up to the one in `RecvBuf`, `headerT` those before, and `poscount` counts
the bytes of `headerT`.

`readHeader_segmentation`: the header that is read depends on where the pieces end. When one ends
between the last two bytes of the empty line, `position - poscount + 2` is `-1`, which `RecvLength`
takes for the greatest `unsigned int`.
-/

namespace Haarp

open Base

/-- The blanks in front of a header. -/
def blanks : Str := ['\r', '\n', '\t', ' ']

def crlf : Str := ['\r', '\n']

def MAXHTTPHEADERLENGTH : Nat := 65536

namespace SocketHandler

/-- The first loop of `ReadHeader`, which drops blanks: whether it reaches the header, then
`tempheader`, `read` and `received`. -/
def readBlanks : Nat → Nat → SocketHandler → Option (Bool × Str × Nat × Nat × SocketHandler)
  | 0, _, _ => none
  | fuel + 1, received, s =>
    let (read, tempheader, s) := s.recv [] false
    if read < 1 then some (false, tempheader, 0, received, s)
    else
      let read := read.toNat
      let received := received + read
      match findFirstNotOf blanks tempheader with
      | some position =>
        if position > 0 then
          let (_, _, s) := s.recvLength [] position
          some (true, tempheader.drop position, read - position, received, s)
        else some (true, tempheader, read, received, s)
      | none =>
        if received > MAXHTTPHEADERLENGTH then some (false, tempheader, read, received, s)
        else
          let (_, _, s) := s.recvLength tempheader read
          readBlanks fuel received s

/-- The end of `ReadHeader`, which takes the last part of the header and the empty line; the length
is an `unsigned int`. -/
def readHeaderEnd (WrongHeader : Bool) (position poscount : Nat) (headerT : Str)
    (s : SocketHandler) : Bool × Str × SocketHandler :=
  let (ok, headerT, s) :=
    s.recvLength headerT (((position : Int) - poscount + 2) % 4294967296).toNat
  if !ok then (false, headerT, s)
  else if !WrongHeader then
    let (ok, _, s) := s.recvLength [] 2
    (ok, headerT, s)
  else (true, headerT, s)

/-- The test of the last character. -/
instance decidableLast (headerT : Str) : Decidable (∀ c ∈ headerT.getLast?, c ∈ crlf) :=
  Option.decidableForallMem headerT.getLast?

/-- The second loop of `ReadHeader`. -/
def readHeaderLoop :
    Nat → Str → Str → Nat → Nat → Nat → SocketHandler → Option (Bool × Str × SocketHandler)
  | 0, _, _, _, _, _, _ => none
  | fuel + 1, tempheader, headerT, read, received, poscount, s =>
    match find (crlf ++ crlf) tempheader with
    | some position => some (readHeaderEnd false position poscount headerT s)
    | none =>
      match find ['\n', '\n'] tempheader with
      | some position => some (readHeaderEnd true position poscount headerT s)
      | none =>
        let (ok, headerT, s) := s.recvLength headerT read
        if !ok then some (false, headerT, s)
        else
          let poscount := poscount + read
          let received := received + read
          if received > MAXHTTPHEADERLENGTH then some (false, headerT, s)
          else
            let (read, tempheader, s) := s.recv tempheader false
            if read < 1 then
              -- `find_last_of` and `size() - 1` are both `npos` for an empty header
              some (read = 0 ∧ ∀ c ∈ headerT.getLast?, c ∈ crlf, headerT, s)
            else readHeaderLoop fuel tempheader headerT read.toNat received poscount s

/-- `ReadHeader(headerT)`; every turn of a loop takes a piece, so `fuel` above their number is
enough. -/
def readHeader (fuel : Nat) (s : SocketHandler) : Option (Bool × Str × SocketHandler) :=
  (readBlanks fuel 0 s).bind fun (ok, tempheader, read, received, s) =>
    if ok then readHeaderLoop fuel tempheader [] read received 0 s else some (false, [], s)

/-! ## The end of the header in a part of the stream -/

section Segmentation

variable {H rest : Str} (hcrlf : ¬ crlf ++ crlf <:+: H) (hlf : ¬ ['\n', '\n'] <:+: H)
  (hlast : ∀ c, H.getLast? = some c → c ∉ crlf)

include hcrlf hlast in
/-- The empty line is found where the header ends. -/
theorem find_header_end (more : Str) :
    find (crlf ++ crlf) (H ++ (crlf ++ crlf) ++ more) = some H.length := by
  have hlast' : ∀ c, H.getLast? = some c → c ∉ crlf ++ crlf := by
    intro c hc hmem
    rcases List.mem_append.mp hmem with h | h <;> exact hlast c hc h
  have hfind : find (crlf ++ crlf) (crlf ++ crlf ++ more) = some 0 :=
    find_eq_zero.mpr (List.prefix_append _ _)
  rw [List.append_assoc, find_append hcrlf hlast', hfind, Option.map_some, Nat.zero_add]

include hcrlf hlf hlast in
/-- Before its end, neither form of an empty line is found. -/
theorem find_header_part {temp more : Str} (htemp : temp <+: H ++ (crlf ++ crlf) ++ more)
    (hlen : temp.length < H.length + 4) :
    find (crlf ++ crlf) temp = none ∧ find ['\n', '\n'] temp = none := by
  rcases Nat.le_total temp.length H.length with hle | hle
  · have hH : temp <+: H := by
      rw [List.append_assoc] at htemp
      exact List.prefix_of_prefix_length_le htemp (List.prefix_append _ _) hle
    exact ⟨find_eq_none fun h => hcrlf (h.trans hH.isInfix),
      find_eq_none fun h => hlf (h.trans hH.isInfix)⟩
  · have hH : H <+: temp := by
      rw [List.append_assoc] at htemp
      exact List.prefix_of_prefix_length_le (List.prefix_append _ _) htemp hle
    obtain ⟨tail, rfl⟩ := hH
    rw [List.append_assoc, List.prefix_append_right_inj] at htemp
    have htail : tail.length < 4 := by
      rw [List.length_append] at hlen
      omega
    have hlast₁ : ∀ c, H.getLast? = some c → c ∉ crlf ++ crlf := by
      intro c hc hmem
      rcases List.mem_append.mp hmem with h | h <;> exact hlast c hc h
    have hlast₂ : ∀ c, H.getLast? = some c → c ∉ ['\n', '\n'] := by
      intro c hc hmem
      exact hlast c hc (by simp_all [crlf])
    have htake : tail = (crlf ++ crlf).take tail.length := by
      rw [List.prefix_iff_eq_take.mp htemp, List.length_take, List.take_append_of_le_length]
      · simp
      · simp [crlf]
        omega
    rw [find_append hcrlf hlast₁, find_append hlf hlast₂, Option.map_eq_none_iff,
      Option.map_eq_none_iff, htake]
    generalize tail.length = n at htail
    match n, htail with
    | 0, _ => exact ⟨rfl, rfl⟩
    | 1, _ => exact ⟨rfl, rfl⟩
    | 2, _ => exact ⟨rfl, rfl⟩
    | 3, _ => exact ⟨rfl, rfl⟩

/-! ## The second loop -/

/-- The header is complete and the rest is left, unless the last byte of the empty line is a piece of
its own. -/
theorem readHeaderEnd_iff {d : Str} {s : SocketHandler} (hlen : H.length < 32000)
    (hs : d ++ s.stream = H ++ (crlf ++ crlf) ++ rest) :
    (∃ s', readHeaderEnd false H.length d.length d s = (true, H ++ crlf, s') ∧ s'.stream = rest) ↔
      d.length ≤ H.length + 2 := by
  have hcount : (H ++ (crlf ++ crlf) ++ rest).length = H.length + 4 + rest.length := by
    simp [crlf]
    omega
  constructor
  · rintro ⟨s', heq, -⟩
    rw [readHeaderEnd] at heq
    generalize hrecv : s.recvLength d
      (((H.length : Int) - d.length + 2) % 4294967296).toNat = out at heq
    obtain ⟨ok, out, s₁⟩ := out
    obtain ⟨taken, rfl, -⟩ := recvLength_stream hrecv
    have hout : d ++ taken = H ++ crlf := by
      cases ok <;> simp at heq
      exact heq.2.1
    have hlength := congrArg List.length hout
    simp [crlf] at hlength
    omega
  · intro hle
    have hread : (((H.length : Int) - d.length + 2) % 4294967296).toNat =
        H.length + 2 - d.length := by omega
    have hstream : s.stream.length = H.length + 4 + rest.length - d.length := by
      rw [← hcount, ← hs, List.length_append]
      omega
    obtain ⟨s₁, hrecv, hparts⟩ := recvLength_parts
      (show H.length + 2 - d.length ≤ s.stream.length by omega) d
    have hs₁ := stream_of_parts hparts
    have htext : d ++ s.stream.take (H.length + 2 - d.length) = H ++ crlf := by
      have htake := congrArg (List.take (H.length + 2)) hs
      rw [List.take_append, List.take_of_length_le hle] at htake
      rw [htake, List.append_assoc, List.take_length_add_append]
      rfl
    obtain ⟨s₂, hrecv₂, hparts₂⟩ := recvLength_parts
      (show 2 ≤ s₁.stream.length by rw [hs₁, List.length_drop]; omega) []
    refine ⟨s₂, ?_, ?_⟩
    · simp only [readHeaderEnd, hread, hrecv, hrecv₂, htext]
      rfl
    · have hdrop := congrArg (List.drop (H.length + 4)) hs
      have hd' : d.drop (H.length + 4) = [] := List.drop_of_length_le (by omega)
      have hadd : H.length + 2 - d.length + 2 = H.length + 4 - d.length := by omega
      rw [List.drop_append, hd', List.nil_append] at hdrop
      rw [stream_of_parts hparts₂, hs₁, List.drop_drop, hadd, hdrop]
      simp [crlf]

include hcrlf hlast in
/-- The empty line is in the parts looked at. -/
theorem readHeaderLoop_found (hlen : H.length < 32000) {l : List Str} {d p : Str}
    {received fuel : Nat} {s : SocketHandler} (hparts : s.parts = p :: l)
    (hs : d ++ s.stream = H ++ (crlf ++ crlf) ++ rest) (hd : d.length ≤ H.length + 3)
    (hfound : H.length + 4 ≤ (d ++ p).length) :
    (∃ s', readHeaderLoop (fuel + 1) (d ++ p) d p.length received d.length s =
      some (true, H ++ crlf, s') ∧ s'.stream = rest) ↔ ¬ Cut s.parts (H.length + 3 - d.length) := by
  have htemp : d ++ p <+: H ++ (crlf ++ crlf) ++ rest := by
    rw [← hs, ← flatten_parts, hparts, List.flatten_cons, ← List.append_assoc]
    exact List.prefix_append _ _
  have hend : H ++ (crlf ++ crlf) <+: d ++ p := by
    refine List.prefix_of_prefix_length_le (List.prefix_append _ _) htemp ?_
    simpa [crlf] using hfound
  obtain ⟨more, hmore⟩ := hend
  have hfind := find_header_end hcrlf hlast more
  rw [hmore] at hfind
  simp only [readHeaderLoop, hfind, Option.some.injEq]
  rw [readHeaderEnd_iff hlen hs]
  rcases Nat.lt_or_ge (H.length + 2) d.length with hlt | hge
  · have hzero : H.length + 3 - d.length = 0 := by omega
    simp [hzero, cut_zero, hlt]
  · have hnot : ¬ Cut s.parts (H.length + 3 - d.length) := by
      rw [hparts]
      rw [List.length_append] at hfound
      exact not_cut_of_lt (by omega) (by omega)
    exact iff_of_true hge hnot

include hcrlf hlf hlast in
theorem readHeaderLoop_iff (hlen : H.length < 32000) {l : List Str} {d p : Str} {received fuel : Nat}
    {s : SocketHandler} (hparts : s.parts = p :: l)
    (hs : d ++ s.stream = H ++ (crlf ++ crlf) ++ rest) (hd : d.length ≤ H.length + 3)
    (hreceived : received ≤ d.length + (d ++ p).length) (hfuel : l.length < fuel) :
    (∃ s', readHeaderLoop fuel (d ++ p) d p.length received d.length s = some (true, H ++ crlf, s') ∧
      s'.stream = rest) ↔ ¬ Cut s.parts (H.length + 3 - d.length) := by
  obtain ⟨fuel, rfl⟩ : ∃ k, fuel = k + 1 := ⟨fuel - 1, by omega⟩
  have hstream : s.stream = p ++ l.flatten := by rw [← flatten_parts, hparts, List.flatten_cons]
  induction l generalizing d p received fuel s with
  | nil =>
    refine readHeaderLoop_found hcrlf hlast hlen hparts hs hd ?_
    have hlength := congrArg List.length hs
    simp [hstream, crlf] at hlength
    rw [List.length_append]
    omega
  | cons q l ih =>
    by_cases hfound : H.length + 4 ≤ (d ++ p).length
    · exact readHeaderLoop_found hcrlf hlast hlen hparts hs hd hfound
    · have htemp : d ++ p <+: H ++ (crlf ++ crlf) ++ rest := by
        rw [← hs, hstream, ← List.append_assoc]
        exact List.prefix_append _ _
      obtain ⟨hnone₁, hnone₂⟩ := find_header_part hcrlf hlf hlast htemp (Nat.not_le.mp hfound)
      obtain ⟨s₁, hrecv₁, hparts₁⟩ := recvLength_piece hparts d
      obtain ⟨s₂, hrecv₂, -, hparts₂, hstream₂⟩ := recv_look hparts₁ (d ++ p)
      have hp := List.length_pos_iff.mpr (s.parts_ne_nil p (hparts ▸ List.mem_cons_self))
      have hq := List.length_pos_iff.mpr (s₁.parts_ne_nil q (hparts₁ ▸ List.mem_cons_self))
      rw [List.length_append] at hfound hreceived
      have hs₂ : d ++ p ++ s₂.stream = H ++ (crlf ++ crlf) ++ rest := by
        rw [← hs, hstream, hstream₂, ← flatten_parts, hparts₁, List.append_assoc]
      have hsmall : ¬ received + p.length > MAXHTTPHEADERLENGTH := by
        unfold MAXHTTPHEADERLENGTH
        omega
      have hmany : ¬ (q.length : Int) < 1 := by omega
      have hstep : readHeaderLoop (fuel + 1) (d ++ p) d p.length received d.length s =
          readHeaderLoop fuel (d ++ p ++ q) (d ++ p) q.length (received + p.length) (d ++ p).length
            s₂ := by
        simp only [readHeaderLoop, hnone₁, hnone₂, hrecv₁, hrecv₂]
        simp [hsmall, hmany]
      have hcut : Cut s.parts (H.length + 3 - d.length) ↔
          Cut s₂.parts (H.length + 3 - (d ++ p).length) := by
        have hadd : H.length + 3 - d.length = p.length + (H.length + 3 - (d ++ p).length) := by
          rw [List.length_append]
          omega
        rw [hparts₂, hparts, hadd, cut_append_iff (List.length_pos_iff.mp hp)]
      obtain ⟨fuel, rfl⟩ : ∃ k, fuel = k + 1 := ⟨fuel - 1, by simp at hfuel; omega⟩
      rw [hstep, hcut]
      refine ih hparts₂ hs₂ ?_ ?_ ?_ ?_ ?_
      · rw [List.length_append]
        omega
      · simp only [List.length_append]
        omega
      · simpa using hfuel
      · rw [← flatten_parts, hparts₂, List.flatten_cons]

/-! ## The first loop -/

/-- Blanks are dropped up to the header, which is then the front of the stream. -/
theorem readBlanks_spec {fuel received received' read : Nat} {temp : Str} {s s' : SocketHandler}
    (h : readBlanks fuel received s = some (true, temp, read, received', s')) :
    ∃ dropped c, s.stream = dropped ++ s'.stream ∧ s'.stream.head? = some c ∧ c ∉ blanks := by
  induction fuel generalizing received s with
  | zero => cases h
  | succ fuel ih =>
    cases hparts : s.parts with
    | nil =>
      rw [readBlanks, recv_nil hparts] at h
      cases hclosed : s.closed <;> simp [hclosed] at h
    | cons p l =>
      obtain ⟨s₁, hrecv, hbuf, hparts₁, hstream₁⟩ := recv_look hparts []
      have hp := List.length_pos_iff.mpr (s.parts_ne_nil p (hparts ▸ List.mem_cons_self))
      have hmany : ¬ (p.length : Int) < 1 := by omega
      rw [readBlanks] at h
      simp only [hrecv, hmany, if_false, List.nil_append] at h
      have hstream : s₁.stream = p ++ l.flatten := by
        rw [← flatten_parts, hparts₁, List.flatten_cons]
      split at h
      · rename_i position hfind
        obtain ⟨c, hc, hnot⟩ := head?_of_findFirstNotOf hfind
        have hle : position ≤ p.length := by
          by_contra hlt
          rw [List.drop_of_length_le (by omega)] at hc
          cases hc
        have hrest : (s₁.stream.drop position).head? = some c := by
          rw [hstream, List.drop_append_of_le_length hle, List.head?_append, hc]
          rfl
        split at h
        · obtain ⟨s₂, hrecv₂, hparts₂⟩ := recvLength_parts
            (show position ≤ s₁.stream.length by rw [hstream, List.length_append]; omega) []
          simp only [hrecv₂, Option.some.injEq, Prod.mk.injEq, true_and] at h
          obtain ⟨-, -, -, rfl⟩ := h
          refine ⟨s₁.stream.take position, c, ?_, ?_, hnot⟩
          · rw [stream_of_parts hparts₂, List.take_append_drop, hstream₁]
          · rw [stream_of_parts hparts₂, hrest]
        · have hzero : position = 0 := by omega
          simp only [Option.some.injEq, Prod.mk.injEq, true_and] at h
          obtain ⟨-, -, -, rfl⟩ := h
          rw [hzero, List.drop_zero] at hrest
          exact ⟨[], c, hstream₁.symm, hrest, hnot⟩
      · split at h
        · simp at h
        · obtain ⟨s₂, hrecv₂, hparts₂⟩ := recvLength_piece hparts₁ p
          simp only [Int.toNat_natCast, hrecv₂] at h
          obtain ⟨dropped, c, hdropped, hc, hnot⟩ := ih h
          refine ⟨p ++ dropped, c, ?_, hc, hnot⟩
          rw [List.append_assoc, ← hdropped, ← flatten_parts s₂, hparts₂, ← hstream₁, hstream]

/-- No byte is read twice. -/
theorem readHeaderEnd_length {WrongHeader ok : Bool} {position poscount : Nat} {headerT out : Str}
    {s s' : SocketHandler}
    (h : readHeaderEnd WrongHeader position poscount headerT s = (ok, out, s')) :
    out.length + s'.stream.length ≤ headerT.length + s.stream.length := by
  rw [readHeaderEnd] at h
  generalize hrecv : s.recvLength headerT
    (((position : Int) - poscount + 2) % 4294967296).toNat = res at h
  obtain ⟨ok₁, out₁, s₁⟩ := res
  obtain ⟨taken, rfl, hstream⟩ := recvLength_stream hrecv
  have hlen := congrArg List.length hstream
  generalize hrecv₂ : s₁.recvLength [] 2 = res at h
  obtain ⟨ok₂, out₂, s₂⟩ := res
  obtain ⟨taken₂, -, hstream₂⟩ := recvLength_stream hrecv₂
  have hlen₂ := congrArg List.length hstream₂
  rw [List.length_append] at hlen hlen₂
  cases ok₁ with
  | false =>
    obtain ⟨-, rfl, rfl⟩ : false = ok ∧ headerT ++ taken = out ∧ s₁ = s' := by simpa using h
    rw [List.length_append]
    omega
  | true =>
    cases WrongHeader with
    | false =>
      obtain ⟨-, rfl, rfl⟩ : ok₂ = ok ∧ headerT ++ taken = out ∧ s₂ = s' := by
        simpa [hrecv₂] using h
      rw [List.length_append]
      omega
    | true =>
      obtain ⟨-, rfl, rfl⟩ : true = ok ∧ headerT ++ taken = out ∧ s₁ = s' := by simpa using h
      rw [List.length_append]
      omega

theorem readHeaderLoop_length {fuel received poscount read : Nat} {temp headerT out : Str} {ok : Bool}
    {s s' : SocketHandler}
    (h : readHeaderLoop fuel temp headerT read received poscount s = some (ok, out, s')) :
    out.length + s'.stream.length ≤ headerT.length + s.stream.length := by
  induction fuel generalizing temp headerT read received poscount s with
  | zero => cases h
  | succ fuel ih =>
    rw [readHeaderLoop] at h
    split at h
    · exact readHeaderEnd_length (Option.some.inj h)
    · split at h
      · exact readHeaderEnd_length (Option.some.inj h)
      · generalize hrecv : s.recvLength headerT read = res at h
        obtain ⟨ok₁, out₁, s₁⟩ := res
        obtain ⟨taken, rfl, hstream⟩ := recvLength_stream hrecv
        have hlen := congrArg List.length hstream
        rw [List.length_append] at hlen
        have hlook := recv_stream s₁ temp
        simp only at h
        split at h
        · obtain ⟨-, rfl, rfl⟩ : false = ok ∧ headerT ++ taken = out ∧ s₁ = s' := by simpa using h
          rw [List.length_append]
          omega
        · split at h
          · obtain ⟨-, rfl, rfl⟩ : false = ok ∧ headerT ++ taken = out ∧ s₁ = s' := by simpa using h
            rw [List.length_append]
            omega
          · split at h
            · simp only [Option.some.injEq, Prod.mk.injEq] at h
              obtain ⟨-, rfl, rfl⟩ := h
              rw [List.length_append, hlook]
              omega
            · have hrest := ih h
              rw [List.length_append, hlook] at hrest
              omega

/-- A header that begins with its empty line loses it to the blanks: it is not read. -/
theorem readHeader_empty {fuel : Nat} {s s' : SocketHandler} {rest : Str}
    (hs : s.stream = crlf ++ crlf ++ rest) (hread : readHeader fuel s = some (true, crlf, s')) :
    s'.stream ≠ rest := by
  intro hrest
  obtain ⟨⟨ok, temp, read, received, s₁⟩, hblanks, hread⟩ := Option.bind_eq_some_iff.mp hread
  cases ok with
  | false => simp at hread
  | true =>
    obtain ⟨dropped, c, hstream, hc, hnot⟩ := readBlanks_spec hblanks
    have hlength := readHeaderLoop_length hread
    rw [hrest] at hlength
    have hcount := congrArg List.length (hs.symm.trans hstream)
    -- all four bytes of the empty line are blanks
    have hfour : 4 ≤ dropped.length := by
      by_contra hlt
      have hget := congrArg (fun l => (l.drop dropped.length).head?) (hs.symm.trans hstream)
      simp only [List.drop_left, hc] at hget
      have hmem : ∀ n, n < 4 → ∃ d ∈ blanks, ((crlf ++ crlf ++ rest).drop n).head? = some d := by
        intro n hn
        match n, hn with
        | 0, _ => exact ⟨'\r', by decide, rfl⟩
        | 1, _ => exact ⟨'\n', by decide, rfl⟩
        | 2, _ => exact ⟨'\r', by decide, rfl⟩
        | 3, _ => exact ⟨'\n', by decide, rfl⟩
      obtain ⟨d, hd, hhead'⟩ := hmem dropped.length (Nat.not_le.mp hlt)
      rw [hhead'] at hget
      exact hnot (Option.some.inj hget ▸ hd)
    simp [crlf] at hlength hcount
    omega

/-- A piece that does not begin with a blank is the first one of the header. -/
theorem readHeader_first {fuel : Nat} {s s₁ : SocketHandler} {c : Char} {p : Str} (hc : c ∉ blanks)
    (hrecv : s.recv [] false = (((c :: p).length : Int), [] ++ c :: p, s₁)) :
    readHeader (fuel + 1) s = readHeaderLoop (fuel + 1) ([] ++ c :: p) []
      (c :: p).length (0 + (c :: p).length) ([] : Str).length s₁ := by
  have hmany : ¬ ((c :: p).length : Int) < 1 := by
    rw [List.length_cons]
    omega
  have hblanks : readBlanks (fuel + 1) 0 s =
      some (true, c :: p, (c :: p).length, 0 + (c :: p).length, s₁) := by
    rw [readBlanks]
    simp only [hrecv, hmany, if_false, List.nil_append, findFirstNotOf_cons hc]
    rfl
  rw [readHeader, hblanks]
  rfl

/-- **The header of a stream in pieces.** A header `H` with an empty line behind it is read, and what
follows is left, exactly when there is a header and no piece ends between the last two bytes of the
empty line. -/
theorem readHeader_segmentation {fuel : Nat} {s : SocketHandler} {H rest : Str}
    (hhead : ∀ c, H.head? = some c → c ∉ blanks) (hcrlf : ¬ crlf ++ crlf <:+: H)
    (hlf : ¬ ['\n', '\n'] <:+: H) (hlast : ∀ c, H.getLast? = some c → c ∉ crlf)
    (hlen : H.length < 32000) (hs : s.stream = H ++ (crlf ++ crlf) ++ rest)
    (hfuel : s.parts.length < fuel) :
    (∃ s', readHeader fuel s = some (true, H ++ crlf, s') ∧ s'.stream = rest) ↔
      H ≠ [] ∧ ¬ Cut s.parts (H.length + 3) := by
  obtain ⟨fuel, rfl⟩ : ∃ k, fuel = k + 1 := ⟨fuel - 1, by omega⟩
  cases H with
  | nil =>
    refine iff_of_false ?_ fun h => h.1 rfl
    rintro ⟨s', hread, hrest⟩
    exact readHeader_empty hs hread hrest
  | cons c H =>
    cases hparts : s.parts with
    | nil =>
      rw [← flatten_parts, hparts] at hs
      exact absurd hs (List.cons_ne_nil _ _).symm
    | cons p l =>
      obtain ⟨s₁, hrecv, -, hparts₁, hstream₁⟩ := recv_look hparts []
      have hp := s.parts_ne_nil p (hparts ▸ List.mem_cons_self)
      have hfirst : p.head? = some c := by
        have hflat := congrArg List.head? ((flatten_parts s).trans hs)
        rw [hparts, List.flatten_cons, List.head?_append_of_ne_nil _ hp] at hflat
        exact hflat
      obtain ⟨p, rfl⟩ : ∃ q, p = c :: q := by
        cases p with
        | nil => cases hfirst
        | cons d q => exact ⟨q, by rw [Option.some.inj hfirst]⟩
      rw [readHeader_first (hhead c rfl) hrecv,
        readHeaderLoop_iff hcrlf hlf hlast hlen hparts₁ (hstream₁.trans hs) (Nat.zero_le _)
          (by simp) (by rw [hparts] at hfuel; simp at hfuel; omega)]
      rw [hparts₁, List.length_nil, Nat.sub_zero]
      exact (and_iff_right (List.cons_ne_nil c H)).symm

/-- `HTTP/1.1 200` -/
def statusOnly : Str := ['H', 'T', 'T', 'P', '/', '1', '.', '1', ' ', '2', '0', '0']

/-- A header whose empty line is split in the middle. -/
theorem readHeader_segmentation_split :
    (∃ s', readHeader 3 ⟨[], [⟨statusOnly ++ crlf, by decide⟩, ⟨crlf ++ ['b'], by decide⟩], true⟩ =
        some (true, statusOnly ++ crlf, s') ∧ s'.stream = ['b']) ↔
      statusOnly ≠ [] ∧
        ¬ Cut [statusOnly ++ crlf, crlf ++ ['b']] (statusOnly.length + 3) :=
  readHeader_segmentation (by rintro c ⟨⟩; decide) (by decide) (by decide) (by rintro c ⟨⟩; decide)
    (by decide) rfl (by decide)

/-- The last byte of the empty line comes by itself: the header is not read. -/
theorem readHeader_torn :
    ¬ ∀ (fuel : Nat) (s : SocketHandler) (H rest : Str), (∀ c, H.head? = some c → c ∉ blanks) →
      ¬ crlf ++ crlf <:+: H → ¬ ['\n', '\n'] <:+: H → (∀ c, H.getLast? = some c → c ∉ crlf) →
      H.length < 32000 → s.stream = H ++ (crlf ++ crlf) ++ rest → s.parts.length < fuel →
      ∃ s', readHeader fuel s = some (true, H ++ crlf, s') ∧ s'.stream = rest := by
  intro h
  obtain ⟨s', hread, -⟩ := h 3
    ⟨[], [⟨statusOnly ++ ['\r', '\n', '\r'], by decide⟩, ⟨['\n'], by decide⟩], true⟩ statusOnly []
    (by rintro c ⟨⟩; decide) (by decide) (by decide) (by rintro c ⟨⟩; decide) (by decide) rfl (by decide)
  have hfalse : (readHeader 3
      ⟨[], [⟨statusOnly ++ ['\r', '\n', '\r'], by decide⟩, ⟨['\n'], by decide⟩], true⟩).map (·.1) =
      some false := by decide +kernel
  rw [hread] at hfalse
  cases hfalse

end Segmentation

end SocketHandler
end Haarp
