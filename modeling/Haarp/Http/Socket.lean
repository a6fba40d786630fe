import Haarp.Base.Cut
import Haarp.Utils.Strings

/-!
# The socket

What `SocketHandler::Recv` and `SocketHandler::RecvLength` read from a socket. The bytes come in the
pieces that `recv` returns, none of them empty; behind the last piece the peer has closed its side,
or nothing more comes before the timeout. A piece has at most `MAXRECV` bytes, so no length of the
source overflows; the model does not use the bound.

`recvLength_stream`: what `RecvLength` takes is the front of the stream, over the ends of pieces
(`recvLength_parts`).
-/

namespace Haarp

open Base

/-- What one call of `recv` returns. -/
abbrev Piece := {p : Str // p ≠ []}

/-- The fields of `SocketHandler` that reading uses, and what `recv` will return. -/
structure SocketHandler where
  RecvBuf : Str
  pieces : List Piece
  closed : Bool
  deriving DecidableEq

namespace SocketHandler

/-- `Recv(sock_inT, sock_delT, -1)`: the value, and `sock_inT` with what was read. -/
def recv (sock_inT : Str) (sock_delT : Bool) (s : SocketHandler) : Int × Str × SocketHandler :=
  if 0 < s.RecvBuf.length then
    (s.RecvBuf.length, sock_inT ++ s.RecvBuf, if sock_delT then { s with RecvBuf := [] } else s)
  else
    match s.pieces with
    | [] => (if s.closed then 0 else -1, sock_inT, s)
    | buffer :: pieces =>
      (buffer.val.length, sock_inT ++ buffer.val,
        { s with
          RecvBuf := if sock_delT then s.RecvBuf else s.RecvBuf ++ buffer.val
          pieces := pieces })

/-- The loop of `RecvLength`: the value, `sock_inT`, the new `RecvBuf` and the pieces left. -/
def recvLengthLoop (sock_lengthT : Nat) : Nat → Str → List Piece → Bool × Str × Str × List Piece
  | _, sock_inT, [] => (false, sock_inT, [], [])
  | received, sock_inT, buffer :: pieces =>
    if received + buffer.val.length ≥ sock_lengthT then
      let needed := sock_lengthT - received
      (true, sock_inT ++ buffer.val.take needed, buffer.val.drop needed, pieces)
    else
      recvLengthLoop sock_lengthT (received + buffer.val.length) (sock_inT ++ buffer.val) pieces

/-- `RecvLength(sock_inT, sock_lengthT)` -/
def recvLength (sock_inT : Str) (sock_lengthT : Nat) (s : SocketHandler) :
    Bool × Str × SocketHandler :=
  if s.RecvBuf.length ≥ sock_lengthT then
    (true, sock_inT ++ s.RecvBuf.take sock_lengthT,
      { s with RecvBuf := s.RecvBuf.drop sock_lengthT })
  else
    let (ok, sock_inT, RecvBuf, pieces) :=
      recvLengthLoop sock_lengthT s.RecvBuf.length (sock_inT ++ s.RecvBuf) s.pieces
    (ok, sock_inT, { s with RecvBuf := RecvBuf, pieces := pieces })

/-! ## The stream -/

/-- `RecvBuf` and the pieces behind it, as the pieces of one stream. -/
def parts (s : SocketHandler) : List Str :=
  if s.RecvBuf = [] then s.pieces.map (·.val) else s.RecvBuf :: s.pieces.map (·.val)

/-- The bytes that are left to read. -/
def stream (s : SocketHandler) : Str := s.RecvBuf ++ (s.pieces.map (·.val)).flatten

theorem flatten_parts (s : SocketHandler) : s.parts.flatten = s.stream := by
  unfold parts stream
  split
  · rename_i h
    rw [h, List.nil_append]
  · rw [List.flatten_cons]

theorem parts_ne_nil (s : SocketHandler) : ∀ p ∈ s.parts, p ≠ [] := by
  intro p hp
  unfold parts at hp
  split at hp
  · obtain ⟨q, -, rfl⟩ := List.mem_map.mp hp
    exact q.property
  · rename_i h
    rcases List.mem_cons.mp hp with rfl | hp
    · exact h
    · obtain ⟨q, -, rfl⟩ := List.mem_map.mp hp
      exact q.property

theorem map_pieces_ne_nil (pieces : List Piece) : ∀ p ∈ pieces.map (·.val), p ≠ [] := by
  intro p hp
  obtain ⟨q, -, rfl⟩ := List.mem_map.mp hp
  exact q.property

/-! ## Recv -/

/-- The state of the socket behind a look: the first piece is in `RecvBuf`. -/
theorem recv_look {s : SocketHandler} {p : Str} {l : List Str} (h : s.parts = p :: l)
    (sock_inT : Str) :
    ∃ s' : SocketHandler, s.recv sock_inT false = ((p.length : Int), sock_inT ++ p, s') ∧
      s'.RecvBuf = p ∧ s'.parts = p :: l ∧ s'.stream = s.stream := by
  unfold parts at h
  split at h
  · rename_i hbuf
    obtain ⟨q, ps, hps, rfl, rfl⟩ := List.map_eq_cons_iff.mp h
    refine ⟨{ s with RecvBuf := q.val, pieces := ps }, ?_, rfl, ?_, ?_⟩
    · simp only [recv, hbuf, hps]
      rfl
    · simp only [parts, if_neg q.property]
    · simp only [stream, hbuf, hps, List.map_cons, List.flatten_cons, List.nil_append]
  · rename_i hbuf
    obtain ⟨rfl, rfl⟩ := List.cons.inj h
    refine ⟨s, ?_, rfl, ?_, rfl⟩
    · rw [recv, if_pos (List.length_pos_iff.mpr hbuf)]
      rfl
    · rw [parts, if_neg hbuf]

/-- A look takes nothing. -/
theorem recv_stream (s : SocketHandler) (sock_inT : Str) :
    (s.recv sock_inT false).2.2.stream = s.stream := by
  unfold recv
  split
  · rfl
  · rename_i hbuf
    have hnil : s.RecvBuf = [] := List.length_eq_zero_iff.mp (by omega)
    split
    · rfl
    · rename_i hps
      simp [stream, hnil, hps]

/-- Nothing is left. -/
theorem recv_nil {s : SocketHandler} (h : s.parts = []) (sock_inT : Str) (sock_delT : Bool) :
    s.recv sock_inT sock_delT = ((if s.closed then 0 else -1 : Int), sock_inT, s) := by
  unfold parts at h
  split at h
  · rename_i hbuf
    have hps := List.map_eq_nil_iff.mp h
    simp [recv, hbuf, hps]
  · exact absurd h (List.cons_ne_nil _ _)

/-! ## RecvLength -/

/-- What the loop takes, and what it leaves. -/
theorem recvLengthLoop_spec {sock_lengthT received : Nat} {pieces : List Piece}
    (hlt : received < sock_lengthT) (sock_inT : Str) :
    let stream := (pieces.map (·.val)).flatten
    let needed := sock_lengthT - received
    if needed ≤ stream.length then
      ∃ RecvBuf rest, recvLengthLoop sock_lengthT received sock_inT pieces =
          (true, sock_inT ++ stream.take needed, RecvBuf, rest) ∧
        (if RecvBuf = [] then rest.map (·.val) else RecvBuf :: rest.map (·.val)) =
          dropFront needed (pieces.map (·.val))
    else recvLengthLoop sock_lengthT received sock_inT pieces =
      (false, sock_inT ++ stream, [], []) := by
  induction pieces generalizing received sock_inT with
  | nil =>
    simp only [List.map_nil, List.flatten_nil, List.length_nil, List.append_nil]
    rw [if_neg (by omega)]
    rfl
  | cons p ps ih =>
    simp only [List.map_cons, List.flatten_cons, List.length_append, recvLengthLoop, dropFront]
    by_cases hp : received + p.val.length ≥ sock_lengthT
    · rw [if_pos hp, if_pos (by omega)]
      refine ⟨p.val.drop (sock_lengthT - received), ps, ?_, ?_⟩
      · rw [List.take_append_of_le_length (by omega)]
      · by_cases heq : sock_lengthT - received < p.val.length
        · have hne : p.val.drop (sock_lengthT - received) ≠ [] := by
            rw [ne_eq, List.drop_eq_nil_iff, Nat.not_le]
            exact heq
          rw [if_neg hne, if_pos heq]
        · have hnil : p.val.drop (sock_lengthT - received) = [] :=
            List.drop_of_length_le (Nat.not_lt.mp heq)
          have hzero : sock_lengthT - received - p.val.length = 0 := by omega
          rw [if_pos hnil, if_neg heq, hzero, dropFront_zero (map_pieces_ne_nil ps)]
    · rw [if_neg hp]
      have hrest : ¬ sock_lengthT - received < p.val.length := by omega
      have hsub : sock_lengthT - (received + p.val.length) =
          sock_lengthT - received - p.val.length := by omega
      have h := ih (Nat.not_le.mp hp) (sock_inT ++ p.val)
      simp only [hsub] at h
      rw [if_neg hrest]
      split at h
      · rw [if_pos (by omega)]
        obtain ⟨RecvBuf, rest, heq, hparts⟩ := h
        refine ⟨RecvBuf, rest, ?_, hparts⟩
        have htake : p.val.take (sock_lengthT - received) = p.val :=
          List.take_of_length_le (Nat.not_lt.mp hrest)
        rw [heq, List.take_append, htake, List.append_assoc]
      · rw [if_neg (by omega), h, List.append_assoc]

/-- **RecvLength**, when enough bytes come. -/
theorem recvLength_parts {s : SocketHandler} {sock_lengthT : Nat}
    (h : sock_lengthT ≤ s.stream.length) (sock_inT : Str) :
    ∃ s' : SocketHandler,
      s.recvLength sock_inT sock_lengthT = (true, sock_inT ++ s.stream.take sock_lengthT, s') ∧
      s'.parts = dropFront sock_lengthT s.parts := by
  by_cases hbuf : s.RecvBuf.length ≥ sock_lengthT
  · refine ⟨{ s with RecvBuf := s.RecvBuf.drop sock_lengthT }, ?_, ?_⟩
    · rw [recvLength, if_pos hbuf, stream, List.take_append_of_le_length hbuf]
    · by_cases hnil : s.RecvBuf = []
      · have hzero : sock_lengthT = 0 := by simpa [hnil] using hbuf
        simp only [parts, hnil, hzero, List.drop_nil, if_true]
        rw [dropFront_zero (map_pieces_ne_nil _)]
      · simp only [parts, if_neg hnil, dropFront, List.drop_eq_nil_iff]
        by_cases hlt : sock_lengthT < s.RecvBuf.length
        · rw [if_neg (Nat.not_le.mpr hlt), if_pos hlt]
        · have hzero : sock_lengthT - s.RecvBuf.length = 0 := by omega
          rw [if_pos (Nat.not_lt.mp hlt), if_neg hlt, hzero,
            dropFront_zero (map_pieces_ne_nil _)]
  · have hspec :=
      @recvLengthLoop_spec _ _ s.pieces (Nat.not_le.mp hbuf) (sock_inT ++ s.RecvBuf)
    simp only at hspec
    rw [stream, List.length_append] at h
    rw [if_pos (by omega)] at hspec
    obtain ⟨RecvBuf, rest, heq, hparts⟩ := hspec
    refine ⟨{ s with RecvBuf := RecvBuf, pieces := rest }, ?_, ?_⟩
    · have htake : s.RecvBuf.take sock_lengthT = s.RecvBuf :=
        List.take_of_length_le (Nat.le_of_lt (Nat.not_le.mp hbuf))
      rw [recvLength, if_neg hbuf, heq, stream, List.take_append, htake, List.append_assoc]
    · refine hparts.trans ?_
      by_cases hnil : s.RecvBuf = []
      · simp [parts, hnil]
      · rw [parts, if_neg hnil, dropFront, if_neg (by omega)]

/-- The stream behind what `RecvLength` takes. -/
theorem stream_of_parts {s s' : SocketHandler} {n : Nat} (h : s'.parts = dropFront n s.parts) :
    s'.stream = s.stream.drop n := by
  rw [← flatten_parts, h, flatten_dropFront, flatten_parts]

/-- `RecvLength` of a whole piece. -/
theorem recvLength_piece {s : SocketHandler} {p : Str} {l : List Str} (h : s.parts = p :: l)
    (sock_inT : Str) :
    ∃ s' : SocketHandler, s.recvLength sock_inT p.length = (true, sock_inT ++ p, s') ∧
      s'.parts = l := by
  have hstream : s.stream = p ++ l.flatten := by rw [← flatten_parts, h, List.flatten_cons]
  have hle : p.length ≤ s.stream.length := by simp [hstream]
  obtain ⟨s', heq, hparts⟩ := recvLength_parts hle sock_inT
  refine ⟨s', ?_, ?_⟩
  · rw [heq, hstream, List.take_left]
  · have hl : ∀ q ∈ l, q ≠ [] := fun q hq => s.parts_ne_nil q (h ▸ List.mem_cons_of_mem p hq)
    rw [hparts, h, dropFront, if_neg (Nat.lt_irrefl _), Nat.sub_self, dropFront_zero hl]

/-- `RecvLength`, when too few bytes come. -/
theorem recvLength_short {s : SocketHandler} {sock_lengthT : Nat}
    (h : s.stream.length < sock_lengthT) (sock_inT : Str) :
    s.recvLength sock_inT sock_lengthT =
      (false, sock_inT ++ s.stream, { s with RecvBuf := [], pieces := [] }) := by
  rw [stream, List.length_append] at h
  have hlt : s.RecvBuf.length < sock_lengthT := by omega
  have hspec := @recvLengthLoop_spec _ _ s.pieces hlt (sock_inT ++ s.RecvBuf)
  simp only at hspec
  rw [if_neg (by omega)] at hspec
  rw [recvLength, if_neg (by omega), hspec, stream, List.append_assoc]

/-- What `RecvLength` takes is the front of the stream. -/
theorem recvLength_stream {s s' : SocketHandler} {sock_inT out : Str} {sock_lengthT : Nat} {ok : Bool}
    (h : s.recvLength sock_inT sock_lengthT = (ok, out, s')) :
    ∃ taken, out = sock_inT ++ taken ∧ s.stream = taken ++ s'.stream := by
  by_cases hle : sock_lengthT ≤ s.stream.length
  · obtain ⟨s₁, heq, hparts⟩ := recvLength_parts hle sock_inT
    obtain ⟨-, rfl, rfl⟩ : true = ok ∧ sock_inT ++ s.stream.take sock_lengthT = out ∧ s₁ = s' := by
      simpa using heq.symm.trans h
    refine ⟨s.stream.take sock_lengthT, rfl, ?_⟩
    rw [stream_of_parts hparts, List.take_append_drop]
  · rw [recvLength_short (Nat.not_le.mp hle)] at h
    obtain ⟨-, rfl, rfl⟩ : false = ok ∧ sock_inT ++ s.stream = out ∧
        ({ s with RecvBuf := [], pieces := [] } : SocketHandler) = s' := by
      simpa using h
    exact ⟨s.stream, rfl, by simp [stream]⟩

end SocketHandler

end Haarp
