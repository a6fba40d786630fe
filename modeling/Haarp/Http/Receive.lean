import Haarp.Http.Socket

/-!
# Receiving

`SocketHandler::Recv` and `SocketHandler::RecvLength` over everything that a socket can do: a wait
that times out, a `recv` that fails, an end of the stream, in any order with the pieces that come.

`reads_fifo`: over any calls, what was handed out, then `RecvBuf`, then what has not come yet is the
stream. The sockets of the readers (`SocketHandler`) are those where nothing fails between two pieces
(`recv_toReceiver`, `recvLength_toReceiver`).
-/

namespace Haarp

/-- What `select_eintr` and the `recv` behind it give; a `recv` that a signal interrupts is called
again. At the end of the stream the buffer is empty. -/
inductive Reception
  | failed
  | got (buffer : Str)
  deriving DecidableEq, Repr

/-- `RecvBuf`, and what the socket will give; behind that the peer has closed its side, or nothing
more comes. -/
structure Receiver where
  RecvBuf : Str
  incoming : List Reception
  closed : Bool
  deriving DecidableEq, Repr

def Reception.bytes : Reception → Str
  | .failed => []
  | .got buffer => buffer

namespace Receiver

/-- A `select_eintr`, and the `recv` behind it. -/
def receive (s : Receiver) : Reception × Receiver :=
  match s.incoming with
  | [] => (if s.closed then .got [] else .failed, s)
  | reception :: incoming => (reception, { s with incoming := incoming })

/-- `Recv(sock_inT, sock_delT, timeout)`: the value, and `sock_inT` with what was read. -/
def recv (sock_inT : Str) (sock_delT : Bool) (s : Receiver) : Int × Str × Receiver :=
  if s.RecvBuf.length > 0 then
    (s.RecvBuf.length, sock_inT ++ s.RecvBuf, if sock_delT then { s with RecvBuf := [] } else s)
  else
    match s.receive with
    | (.failed, s) => (-1, sock_inT, s)
    | (.got buffer, s) =>
      let s := if sock_delT then s else { s with RecvBuf := s.RecvBuf ++ buffer }
      if buffer.length = 0 then (0, sock_inT, s) else (buffer.length, sock_inT ++ buffer, s)

/-- The loop of `RecvLength`: the value, `sock_inT`, the new `RecvBuf` and what comes behind. -/
def recvLengthLoop (sock_lengthT : Nat) : Nat → Str → List Reception → Bool × Str × Str × List Reception
  | _, sock_inT, [] => (false, sock_inT, [], [])
  | _, sock_inT, .failed :: incoming => (false, sock_inT, [], incoming)
  | received, sock_inT, .got buffer :: incoming =>
    if buffer.length < 1 then (false, sock_inT, [], incoming)
    else if received + buffer.length ≥ sock_lengthT then
      let needed := sock_lengthT - received
      (true, sock_inT ++ buffer.take needed, buffer.drop needed, incoming)
    else recvLengthLoop sock_lengthT (received + buffer.length) (sock_inT ++ buffer) incoming

/-- `RecvLength(sock_inT, sock_lengthT)` -/
def recvLength (sock_inT : Str) (sock_lengthT : Nat) (s : Receiver) : Bool × Str × Receiver :=
  if s.RecvBuf.length ≥ sock_lengthT then
    (true, sock_inT ++ s.RecvBuf.take sock_lengthT,
      { s with RecvBuf := s.RecvBuf.drop sock_lengthT })
  else
    let (ok, sock_inT, RecvBuf, incoming) :=
      recvLengthLoop sock_lengthT s.RecvBuf.length (sock_inT ++ s.RecvBuf) s.incoming
    (ok, sock_inT, { s with RecvBuf := RecvBuf, incoming := incoming })

/-! ## The stream -/

/-- The bytes that have not come yet. -/
def ahead (s : Receiver) : Str := s.incoming.flatMap Reception.bytes

/-- The bytes that are left to read. -/
def stream (s : Receiver) : Str := s.RecvBuf ++ s.ahead

/-- What comes is the front of what is ahead, and the rest of the socket stays. -/
theorem receive_spec (s : Receiver) :
    s.receive.1.bytes ++ s.receive.2.ahead = s.ahead ∧ s.receive.2.RecvBuf = s.RecvBuf ∧
      s.receive.2.closed = s.closed := by
  unfold receive ahead
  cases hin : s.incoming with
  | nil => cases s.closed <;> simp [hin, Reception.bytes]
  | cons reception incoming => simp

/-- `Recv` with something in `RecvBuf`. -/
theorem recv_of_ne_nil {s : Receiver} (h : s.RecvBuf ≠ []) (sock_inT : Str) (sock_delT : Bool) :
    (s.recv sock_inT sock_delT).2 =
      (sock_inT ++ s.RecvBuf, if sock_delT then { s with RecvBuf := [] } else s) := by
  rw [recv, if_pos (List.length_pos_iff.mpr h)]

/-- `Recv` with an empty `RecvBuf`. -/
theorem recv_of_nil {s : Receiver} (h : s.RecvBuf = []) (sock_inT : Str) (sock_delT : Bool) :
    (s.recv sock_inT sock_delT).2 =
      (sock_inT ++ s.receive.1.bytes,
        { s.receive.2 with RecvBuf := if sock_delT then [] else s.receive.1.bytes }) := by
  obtain ⟨-, hsame, -⟩ := s.receive_spec
  rw [h] at hsame
  have hnone : ¬ s.RecvBuf.length > 0 := by simp [h]
  rw [recv, if_neg hnone]
  generalize s.receive = out at hsame
  obtain ⟨reception, s₁⟩ := out
  obtain ⟨RecvBuf, incoming, closed⟩ := s₁
  obtain rfl : RecvBuf = [] := hsame
  cases reception with
  | failed => cases sock_delT <;> simp [Reception.bytes]
  | got buffer =>
    by_cases hzero : buffer = []
    · cases sock_delT <;> simp [Reception.bytes, hzero]
    · cases sock_delT <;> simp [Reception.bytes, hzero]

/-- `Recv` that deletes: what it appends is the front of the stream. -/
theorem recv_delete (s : Receiver) (sock_inT : Str) :
    ∃ taken, (s.recv sock_inT true).2.1 = sock_inT ++ taken ∧
      s.stream = taken ++ (s.recv sock_inT true).2.2.stream := by
  by_cases hbuf : s.RecvBuf = []
  · rw [recv_of_nil hbuf]
    refine ⟨s.receive.1.bytes, rfl, ?_⟩
    rw [stream, hbuf, ← s.receive_spec.1]
    rfl
  · rw [recv_of_ne_nil hbuf]
    exact ⟨s.RecvBuf, rfl, rfl⟩

/-- `Recv` that only looks: what comes goes to `RecvBuf`, and `sock_inT` gets `RecvBuf`. -/
theorem recv_peek (s : Receiver) (sock_inT : Str) :
    (s.recv sock_inT false).2.1 = sock_inT ++ (s.recv sock_inT false).2.2.RecvBuf ∧
      (s.recv sock_inT false).2.2.stream = s.stream ∧
      s.RecvBuf <+: (s.recv sock_inT false).2.2.RecvBuf ∧
      (s.recv sock_inT false).2.2.closed = s.closed ∧
      (s.RecvBuf ≠ [] → (s.recv sock_inT false).2.2 = s) := by
  by_cases hbuf : s.RecvBuf = []
  · obtain ⟨hahead, -, hclosed⟩ := s.receive_spec
    rw [recv_of_nil hbuf]
    refine ⟨rfl, ?_, ?_, hclosed, fun hne => absurd hbuf hne⟩
    · rw [stream, stream, hbuf, ← hahead]
      rfl
    · rw [hbuf]
      exact List.nil_prefix
  · rw [recv_of_ne_nil hbuf]
    exact ⟨rfl, rfl, List.prefix_rfl, rfl, fun _ => rfl⟩

/-- What the loop of `RecvLength` takes, and what it leaves. -/
theorem recvLengthLoop_spec {sock_lengthT received : Nat} {sock_inT out RecvBuf : Str} {ok : Bool}
    {incoming rest : List Reception} (hlt : received < sock_lengthT)
    (h : recvLengthLoop sock_lengthT received sock_inT incoming = (ok, out, RecvBuf, rest)) :
    ∃ taken, out = sock_inT ++ taken ∧
      incoming.flatMap Reception.bytes = taken ++ (RecvBuf ++ rest.flatMap Reception.bytes) ∧
      (ok = true → received + taken.length = sock_lengthT) := by
  induction incoming generalizing received sock_inT with
  | nil =>
    cases h
    exact ⟨[], (List.append_nil _).symm, rfl, nofun⟩
  | cons reception incoming ih =>
    cases reception with
    | failed =>
      cases h
      exact ⟨[], (List.append_nil _).symm, rfl, nofun⟩
    | got buffer =>
      rw [List.flatMap_cons]
      rw [recvLengthLoop] at h
      split at h
      · next hzero =>
        cases h
        obtain rfl := List.length_eq_zero_iff.mp (Nat.lt_one_iff.mp hzero)
        exact ⟨[], (List.append_nil _).symm, rfl, nofun⟩
      · split at h
        · next hmany =>
          cases h
          refine ⟨buffer.take (sock_lengthT - received), rfl, ?_, fun _ => ?_⟩
          · rw [← List.append_assoc, List.take_append_drop]
            rfl
          · rw [List.length_take, Nat.min_eq_left (by omega)]
            omega
        · next hfew =>
          obtain ⟨taken, rfl, hbytes, hlen⟩ := ih (Nat.not_le.mp hfew) h
          refine ⟨buffer ++ taken, List.append_assoc .., ?_, fun hok => ?_⟩
          · rw [hbytes, List.append_assoc]
            rfl
          · rw [List.length_append, ← Nat.add_assoc]
            exact hlen hok

/-- `RecvLength`: what it appends is the front of the stream, also when it fails; when it does not,
these are as many bytes as were asked for. -/
theorem recvLength_spec {s s' : Receiver} {sock_inT out : Str} {sock_lengthT : Nat} {ok : Bool}
    (h : s.recvLength sock_inT sock_lengthT = (ok, out, s')) :
    ∃ taken, out = sock_inT ++ taken ∧ s.stream = taken ++ s'.stream ∧
      (ok = true → taken.length = sock_lengthT) := by
  unfold recvLength at h
  split at h
  · next hbuf =>
    cases h
    refine ⟨s.RecvBuf.take sock_lengthT, rfl, ?_, fun _ => ?_⟩
    · rw [stream, stream, ← List.append_assoc, List.take_append_drop]
      rfl
    · rw [List.length_take, Nat.min_eq_left hbuf]
  · next hbuf =>
    generalize hloop :
      recvLengthLoop sock_lengthT s.RecvBuf.length (sock_inT ++ s.RecvBuf) s.incoming = out' at h
    obtain ⟨ok', out', RecvBuf, rest⟩ := out'
    cases h
    obtain ⟨taken, rfl, hbytes, hlen⟩ := recvLengthLoop_spec (Nat.not_le.mp hbuf) hloop
    refine ⟨s.RecvBuf ++ taken, List.append_assoc .., ?_, fun hok => ?_⟩
    · rw [stream, ahead, hbytes, List.append_assoc]
      rfl
    · rw [List.length_append]
      exact hlen hok

/-! ## Runs -/

/-- A call of one of the two functions, with its `sock_inT`. -/
inductive Read
  | recv (sock_inT : Str) (sock_delT : Bool)
  | recvLength (sock_inT : Str) (sock_lengthT : Nat)

/-- The text that a call leaves in `sock_inT`, and the socket. -/
def read (s : Receiver) : Read → Str × Receiver
  | .recv sock_inT sock_delT => (s.recv sock_inT sock_delT).2
  | .recvLength sock_inT sock_lengthT => (s.recvLength sock_inT sock_lengthT).2

/-- The text that `sock_inT` has before the call. -/
def Read.before : Read → Str
  | .recv sock_inT _ => sock_inT
  | .recvLength sock_inT _ => sock_inT

/-- The call takes what it reads from the socket. -/
def Read.takes : Read → Bool
  | .recv _ sock_delT => sock_delT
  | .recvLength _ _ => true

/-- The calls one after the other: what was handed out, and the socket. -/
def reads : Receiver → List Read → Str × Receiver
  | s, [] => ([], s)
  | s, r :: rs =>
    let (out, s') := s.read r
    let (handed, s'') := s'.reads rs
    ((if r.takes then out.drop r.before.length else []) ++ handed, s'')

/-- One call. -/
theorem read_fifo (s : Receiver) (r : Read) :
    r.before <+: (s.read r).1 ∧
      (if r.takes then (s.read r).1.drop r.before.length else []) ++ (s.read r).2.stream = s.stream := by
  cases r with
  | recv sock_inT sock_delT =>
    cases sock_delT with
    | true =>
      obtain ⟨taken, hout, hstream⟩ := s.recv_delete sock_inT
      simp only [read, Read.takes, Read.before, if_true, hout, hstream, List.drop_left]
      exact ⟨List.prefix_append _ _, trivial⟩
    | false =>
      obtain ⟨hout, hstream, -⟩ := s.recv_peek sock_inT
      simp only [read, Read.before, hout]
      exact ⟨List.prefix_append _ _, hstream⟩
  | recvLength sock_inT sock_lengthT =>
    simp only [read, Read.takes, Read.before, if_true]
    generalize hcall : s.recvLength sock_inT sock_lengthT = call
    obtain ⟨ok, out, s'⟩ := call
    obtain ⟨taken, rfl, hstream, -⟩ := recvLength_spec hcall
    rw [hstream, List.drop_left]
    exact ⟨List.prefix_append _ _, rfl⟩

/-- All calls. -/
theorem reads_stream (s : Receiver) (rs : List Read) :
    (s.reads rs).1 ++ (s.reads rs).2.stream = s.stream := by
  induction rs generalizing s with
  | nil => rfl
  | cons r rs ih =>
    rw [reads, ← (s.read_fifo r).2, ← ih (s.read r).2, List.append_assoc]

/-- **The receive buffer is a queue.** After any calls, what was handed out, `RecvBuf` and what has
not come yet are the stream. The next call only appends; a `RecvLength` that succeeds appends as many
bytes as were asked for, and a `Recv` that only looks changes nothing but what is in `RecvBuf`. -/
theorem reads_fifo (s : Receiver) (rs : List Read) :
    (s.reads rs).1 ++ ((s.reads rs).2.RecvBuf ++ (s.reads rs).2.ahead) = s.RecvBuf ++ s.ahead ∧
      (∀ r : Read, r.before <+: ((s.reads rs).2.read r).1) ∧
      (∀ sock_inT sock_lengthT out s',
        (s.reads rs).2.recvLength sock_inT sock_lengthT = (true, out, s') →
          ∃ taken, out = sock_inT ++ taken ∧ taken.length = sock_lengthT) ∧
      ∀ sock_inT n out s', (s.reads rs).2.recv sock_inT false = (n, out, s') →
        s'.RecvBuf ++ s'.ahead = (s.reads rs).2.RecvBuf ++ (s.reads rs).2.ahead ∧
          (s.reads rs).2.RecvBuf <+: s'.RecvBuf ∧ s'.closed = (s.reads rs).2.closed ∧
          ((s.reads rs).2.RecvBuf ≠ [] → s' = (s.reads rs).2) := by
  refine ⟨s.reads_stream rs, fun r => ((s.reads rs).2.read_fifo r).1, ?_, ?_⟩
  · intro sock_inT sock_lengthT out s' h
    obtain ⟨taken, hout, -, hlen⟩ := recvLength_spec h
    exact ⟨taken, hout, hlen rfl⟩
  · intro sock_inT n out s' h
    have hpeek := ((s.reads rs).2.recv_peek sock_inT).2
    rw [h] at hpeek
    exact hpeek

end Receiver

/-! ## The sockets of the readers -/

/-- A socket where nothing fails between two pieces. -/
def SocketHandler.toReceiver (s : SocketHandler) : Receiver :=
  ⟨s.RecvBuf, s.pieces.map fun p => .got p.val, s.closed⟩

theorem SocketHandler.stream_toReceiver (s : SocketHandler) : s.toReceiver.stream = s.stream := by
  rw [Receiver.stream, Receiver.ahead, toReceiver, List.flatMap_map, List.flatMap_def]
  rfl

theorem SocketHandler.recv_toReceiver (sock_inT : Str) (sock_delT : Bool) (s : SocketHandler) :
    s.toReceiver.recv sock_inT sock_delT =
      ((s.recv sock_inT sock_delT).1, (s.recv sock_inT sock_delT).2.1,
        (s.recv sock_inT sock_delT).2.2.toReceiver) := by
  unfold Receiver.recv recv
  by_cases hbuf : 0 < s.RecvBuf.length
  · rw [if_pos hbuf, if_pos (show s.toReceiver.RecvBuf.length > 0 from hbuf)]
    cases sock_delT <;> rfl
  · rw [if_neg hbuf, if_neg (show ¬ s.toReceiver.RecvBuf.length > 0 from hbuf)]
    unfold Receiver.receive toReceiver
    cases hpieces : s.pieces with
    | nil => cases s.closed <;> cases sock_delT <;> simp [hpieces]
    | cons p pieces =>
      have hp : p.val.length ≠ 0 := fun h => p.property (List.length_eq_zero_iff.mp h)
      cases sock_delT <;> simp [p.property]

theorem SocketHandler.recvLengthLoop_toReceiver (sock_lengthT received : Nat) (sock_inT : Str)
    (pieces : List Piece) :
    Receiver.recvLengthLoop sock_lengthT received sock_inT (pieces.map fun p => .got p.val) =
      ((recvLengthLoop sock_lengthT received sock_inT pieces).1,
        (recvLengthLoop sock_lengthT received sock_inT pieces).2.1,
        (recvLengthLoop sock_lengthT received sock_inT pieces).2.2.1,
        (recvLengthLoop sock_lengthT received sock_inT pieces).2.2.2.map fun p => .got p.val) := by
  induction pieces generalizing received sock_inT with
  | nil => rfl
  | cons p pieces ih =>
    have hp : ¬ p.val.length < 1 := Nat.not_lt.mpr (List.length_pos_iff.mpr p.property)
    rw [List.map_cons, Receiver.recvLengthLoop, recvLengthLoop, if_neg hp]
    split
    · rfl
    · exact ih _ _

theorem SocketHandler.recvLength_toReceiver (sock_inT : Str) (sock_lengthT : Nat) (s : SocketHandler) :
    s.toReceiver.recvLength sock_inT sock_lengthT =
      ((s.recvLength sock_inT sock_lengthT).1, (s.recvLength sock_inT sock_lengthT).2.1,
        (s.recvLength sock_inT sock_lengthT).2.2.toReceiver) := by
  unfold Receiver.recvLength recvLength
  by_cases hbuf : s.RecvBuf.length ≥ sock_lengthT
  · rw [if_pos hbuf, if_pos (show s.toReceiver.RecvBuf.length ≥ sock_lengthT from hbuf)]
    rfl
  · rw [if_neg hbuf, if_neg (show ¬ s.toReceiver.RecvBuf.length ≥ sock_lengthT from hbuf)]
    have h := recvLengthLoop_toReceiver sock_lengthT s.RecvBuf.length (sock_inT ++ s.RecvBuf) s.pieces
    simp only [toReceiver, h]

end Haarp
