import Haarp.Http.Socket

/-!
# The body of a request

The loop of `ProxyHandler::CommunicationHTTP` that moves the body of a request from the browser to
the server, and `SocketHandler::Send`. The loop computes with `int`: a conversion to it wraps around,
and the product that does not fit is a parameter, for the language leaves it open. Where `int` has no
value at all that the code could go on with (the counter of the loop behind its greatest value, the
length of a string that does not fit), the result is `none`.

The body is cut into blocks of `MAXRECV` bytes and a last one with the rest, and a send of nothing
counts as a failure. `clientBody_relayed` says which lengths are relayed whole.
-/

namespace Haarp

open Base

/-- `MAXRECV`, as a length. -/
def maxRecv : Nat := 14600

/-- The greatest `int`. -/
def intMax : Int := 2147483647

/-- The conversion to `int`. -/
def toInt (n : Int) : Int := n.bmod 4294967296

/-- The conversion to `unsigned int`. -/
def toUnsigned (n : Int) : Nat := (n % 4294967296).toNat

/-- A product of two `int`s: it is right where it fits. -/
def IntMul (mul : Int → Int → Int) : Prop :=
  ∀ x y, -intMax - 1 ≤ x * y → x * y ≤ intMax → mul x y = x * y

/-- The product that wraps around. -/
def wrapMul (x y : Int) : Int := toInt (x * y)

/-! ## Sending -/

/-- The side of a socket that is written: what it has taken, and the calls of `::send` so far. -/
structure Outgoing where
  sent : Str
  calls : Nat
  deriving DecidableEq

/-- What `select` and the calls of `::send` give, for the number of the call and what is left of the
string: the bytes that are taken, negative for a failure. -/
abbrev Sends := Nat → Str → Int

namespace Outgoing

/-- The loop of `Send`, with what is left of the string. -/
def sendLoop (sends : Sends) : Nat → Outgoing → Str → Option (Bool × Outgoing)
  | 0, _, _ => none
  | fuel + 1, s, left =>
    let buffer_count := sends s.calls left
    if buffer_count < 0 then some (false, { s with calls := s.calls + 1 })
    else if buffer_count = 0 then some (false, { s with calls := s.calls + 1 })
    else
      let s : Outgoing := ⟨s.sent ++ left.take buffer_count.toNat, s.calls + 1⟩
      let left := left.drop buffer_count.toNat
      if left ≠ [] then sendLoop sends fuel s left else some (true, s)

/-- `Send(sock_outT)`: every turn that goes on has taken a byte. -/
def send (sends : Sends) (sock_outT : Str) (s : Outgoing) : Option (Bool × Outgoing) :=
  if (sock_outT.length : Int) > intMax then none
  else sendLoop sends (sock_outT.length + 1) s sock_outT

end Outgoing

/-- A send of bytes takes at least one of them, and a send of nothing takes nothing. -/
structure Accepting (sends : Sends) : Prop where
  bytes : ∀ k left, left ≠ [] → 1 ≤ sends k left ∧ sends k left ≤ left.length
  nothing : ∀ k, sends k [] = 0

namespace Outgoing

variable {sends : Sends}

theorem sendLoop_spec (hsends : Accepting sends) (fuel : Nat) (s : Outgoing) {left : Str}
    (hne : left ≠ []) (hfuel : left.length < fuel) :
    ∃ calls, sendLoop sends fuel s left = some (true, ⟨s.sent ++ left, calls⟩) := by
  induction fuel generalizing s left with
  | zero => omega
  | succ fuel ih =>
    obtain ⟨hpos, hle⟩ := hsends.bytes s.calls left hne
    rw [sendLoop]
    dsimp only
    rw [if_neg (by omega), if_neg (by omega)]
    by_cases hrest : left.drop (sends s.calls left).toNat = []
    · rw [if_neg (not_not.mpr hrest), List.take_of_length_le (List.drop_eq_nil_iff.mp hrest)]
      exact ⟨_, rfl⟩
    · rw [if_pos hrest]
      have hlt : (left.drop (sends s.calls left).toNat).length < fuel := by
        rw [List.length_drop]
        omega
      obtain ⟨calls, h⟩ := ih ⟨s.sent ++ left.take (sends s.calls left).toNat, s.calls + 1⟩ hrest hlt
      refine ⟨calls, ?_⟩
      rw [h, List.append_assoc, List.take_append_drop]

/-- A string with bytes is sent whole. -/
theorem send_spec (hsends : Accepting sends) (s : Outgoing) {sock_outT : Str} (hne : sock_outT ≠ [])
    (hfits : (sock_outT.length : Int) ≤ intMax) :
    ∃ calls, s.send sends sock_outT = some (true, ⟨s.sent ++ sock_outT, calls⟩) := by
  rw [send, if_neg (by omega)]
  exact sendLoop_spec hsends _ s hne (Nat.lt_succ_self _)

/-- A string without any counts as one that was not sent. -/
theorem send_nil (hsends : Accepting sends) (s : Outgoing) :
    s.send sends [] = some (false, { s with calls := s.calls + 1 }) := by
  simp [send, sendLoop, hsends.nothing, intMax]

theorem sendLoop_sent (fuel : Nat) (s : Outgoing) (left : Str) {taken : Bool} {s' : Outgoing}
    (h : sendLoop sends fuel s left = some (taken, s')) :
    s'.sent.length ≤ s.sent.length + left.length := by
  induction fuel generalizing s left with
  | zero => cases h
  | succ fuel ih =>
    rw [sendLoop] at h
    dsimp only at h
    split at h
    · cases h
      exact Nat.le_add_right _ _
    · split at h
      · cases h
        exact Nat.le_add_right _ _
      · split at h
        · have hrest := ih _ _ h
          rw [List.length_append, List.length_take, List.length_drop] at hrest
          omega
        · cases h
          rw [List.length_append, List.length_take]
          omega

/-- Whatever becomes of a send, no more is sent than the string. -/
theorem send_sent {s s' : Outgoing} {sock_outT : Str} {taken : Bool}
    (h : s.send sends sock_outT = some (taken, s')) :
    s'.sent.length ≤ s.sent.length + sock_outT.length := by
  unfold send at h
  split at h
  · cases h
  · exact sendLoop_sent _ s sock_outT h

end Outgoing

/-! ## The loop of the body -/

/-- The connections while the body of a request is relayed. -/
structure Posting where
  ToBrowser : SocketHandler
  ToServer : Outgoing
  deriving DecidableEq

section Loop

variable (sends : Sends)

/-- A turn of the loop, for a block of the given length. -/
def relayBlock (sock_lengthT : Nat) (s : Posting) : Option (Int × Posting) :=
  let (received, Body, ToBrowser) := s.ToBrowser.recvLength [] sock_lengthT
  if ¬ received then some (-10, { s with ToBrowser })
  else
    (s.ToServer.send sends Body).bind fun (taken, ToServer) =>
      if ¬ taken then some (-76, { s with ToBrowser, ToServer })
      else some (0, { s with ToBrowser, ToServer })

/-- The turns of the loop, for the number `repeat - i` of those that follow: the last one has the
`rest`, and `i++` leaves `int` behind it when `repeat` is its greatest value. -/
def clientBodyLoop (rest : Nat) (greatest : Bool) : Nat → Posting → Option (Int × Posting)
  | 0, s =>
    (relayBlock sends rest s).bind fun (ret, s) =>
      if ret < 0 then some (ret, s) else if greatest then none else some (0, s)
  | left + 1, s =>
    (relayBlock sends maxRecv s).bind fun (ret, s) =>
      if ret < 0 then some (ret, s) else clientBodyLoop rest greatest left s

/-- The body loop of `CommunicationHTTP`: the code it returns, 0 where it goes on. -/
def clientBody (mul : Int → Int → Int) (ContentLengthReference : Nat) (s : Posting) :
    Option (Int × Posting) :=
  let «repeat» := toInt (ContentLengthReference / maxRecv : Nat)
  if «repeat» < 0 then some (0, s)
  else
    let rest := toInt (ContentLengthReference - mul maxRecv «repeat»)
    clientBodyLoop sends (toUnsigned rest) («repeat» = intMax) «repeat».toNat s

end Loop

/-! ## What a block moves -/

section Block

variable {sends : Sends}

/-- A block with bytes is moved whole. -/
theorem relayBlock_spec (hsends : Accepting sends) {s : Posting} {Body behind : Str}
    (hne : Body ≠ []) (hfits : (Body.length : Int) ≤ intMax)
    (hstream : s.ToBrowser.stream = Body ++ behind) :
    ∃ s', relayBlock sends Body.length s = some (0, s') ∧
      s'.ToServer.sent = s.ToServer.sent ++ Body ∧ s'.ToBrowser.stream = behind := by
  have hle : Body.length ≤ s.ToBrowser.stream.length := by simp [hstream]
  obtain ⟨ToBrowser, heq, hparts⟩ := SocketHandler.recvLength_parts hle []
  rw [hstream, List.take_left, List.nil_append] at heq
  obtain ⟨calls, hsend⟩ := s.ToServer.send_spec hsends hne hfits
  refine ⟨⟨ToBrowser, ⟨s.ToServer.sent ++ Body, calls⟩⟩, ?_, rfl, ?_⟩
  · simp only [relayBlock, heq, hsend, not_true_eq_false, if_false, Option.bind_some]
  · rw [SocketHandler.stream_of_parts hparts, hstream, List.drop_left]

/-- A block without any is not sent. -/
theorem relayBlock_zero (hsends : Accepting sends) (s : Posting) :
    ∃ s', relayBlock sends 0 s = some (-76, s') ∧ s'.ToServer.sent = s.ToServer.sent := by
  obtain ⟨ToBrowser, heq, -⟩ :=
    SocketHandler.recvLength_parts (Nat.zero_le s.ToBrowser.stream.length) []
  rw [List.take_zero, List.nil_append] at heq
  refine ⟨⟨ToBrowser, { s.ToServer with calls := s.ToServer.calls + 1 }⟩, ?_, rfl⟩
  simp only [relayBlock, heq, s.ToServer.send_nil hsends, not_true_eq_false, if_false,
    Option.bind_some, Bool.false_eq_true, not_false_eq_true, if_true]

theorem recvLength_length {s s' : SocketHandler} {out : Str} {n : Nat}
    (h : s.recvLength [] n = (true, out, s')) : out.length ≤ n := by
  by_cases hle : n ≤ s.stream.length
  · obtain ⟨s₁, heq, -⟩ := SocketHandler.recvLength_parts hle []
    rw [h] at heq
    cases heq
    simp
  · rw [SocketHandler.recvLength_short (Nat.not_le.mp hle)] at h
    cases h

/-- No block moves more than its length. -/
theorem relayBlock_sent {n : Nat} {s s' : Posting} {ret : Int}
    (h : relayBlock sends n s = some (ret, s')) :
    s'.ToServer.sent.length ≤ s.ToServer.sent.length + n := by
  unfold relayBlock at h
  rcases hr : s.ToBrowser.recvLength [] n with ⟨received, Body, ToBrowser⟩
  rw [hr] at h
  dsimp only at h
  split at h
  · cases h
    exact Nat.le_add_right _ _
  · next hreceived =>
    obtain ⟨⟨taken, ToServer⟩, hsend, h⟩ := Option.bind_eq_some_iff.mp h
    have htaken := Outgoing.send_sent hsend
    have hlen : Body.length ≤ n := recvLength_length (by rw [hr, not_not.mp hreceived])
    dsimp only at h
    split at h <;> cases h <;> exact htaken.trans (Nat.add_le_add_left hlen _)

/-! ## What the loop moves -/

variable {rest : Nat} {greatest : Bool}

/-- The blocks before the last one are moved whole. -/
theorem clientBodyLoop_blocks (hsends : Accepting sends) (left : Nat) {s : Posting}
    {blocks behind : Str} (hlen : blocks.length = maxRecv * left)
    (hstream : s.ToBrowser.stream = blocks ++ behind) :
    ∃ s', clientBodyLoop sends rest greatest left s = clientBodyLoop sends rest greatest 0 s' ∧
      s'.ToServer.sent = s.ToServer.sent ++ blocks ∧ s'.ToBrowser.stream = behind := by
  induction left generalizing s blocks with
  | zero =>
    obtain rfl : blocks = [] := List.length_eq_zero_iff.mp hlen
    exact ⟨s, rfl, (List.append_nil _).symm, hstream⟩
  | succ left ih =>
    rw [Nat.mul_succ] at hlen
    have htake : (blocks.take maxRecv).length = maxRecv := List.length_take_of_le (by omega)
    have hdrop : (blocks.drop maxRecv).length = maxRecv * left := by
      rw [List.length_drop]
      omega
    have hne : blocks.take maxRecv ≠ [] := List.ne_nil_of_length_pos (by rw [htake]; decide)
    have hsplit : s.ToBrowser.stream = blocks.take maxRecv ++ (blocks.drop maxRecv ++ behind) := by
      rw [← List.append_assoc, List.take_append_drop, hstream]
    obtain ⟨s₁, hblock, hsent, hstream₁⟩ :=
      relayBlock_spec hsends hne (by rw [htake]; decide) hsplit
    rw [htake] at hblock
    obtain ⟨s', hloop, hsent', hstream'⟩ := ih hdrop hstream₁
    refine ⟨s', ?_, ?_, hstream'⟩
    · rw [← hloop, clientBodyLoop, hblock]
      rfl
    · rw [hsent', hsent, List.append_assoc, List.take_append_drop]

/-- No run moves more than the lengths of its blocks. -/
theorem clientBodyLoop_sent (left : Nat) {s s' : Posting} {ret : Int}
    (h : clientBodyLoop sends rest greatest left s = some (ret, s')) :
    s'.ToServer.sent.length ≤ s.ToServer.sent.length + maxRecv * left + rest := by
  induction left generalizing s with
  | zero =>
    obtain ⟨⟨ret₁, s₁⟩, hblock, h⟩ := Option.bind_eq_some_iff.mp h
    have hsent := relayBlock_sent hblock
    dsimp only at h
    split at h
    · cases h
      omega
    · split at h
      · cases h
      · cases h
        omega
  | succ left ih =>
    obtain ⟨⟨ret₁, s₁⟩, hblock, h⟩ := Option.bind_eq_some_iff.mp h
    have hsent := relayBlock_sent hblock
    rw [Nat.mul_succ]
    dsimp only at h
    split at h
    · cases h
      omega
    · have := ih h
      omega

end Block

/-! ## Lengths -/

theorem toInt_of_fits {n : Int} (hmin : -intMax - 1 ≤ n) (hmax : n ≤ intMax) : toInt n = n := by
  unfold intMax at *
  exact Int.bmod_eq_of_le (by omega) (by omega)

theorem toInt_toInt (n : Int) : toInt (toInt n) = toInt n := by
  unfold toInt
  rw [Int.bmod_bmod]

theorem toInt_le (n : Int) : toInt n ≤ intMax :=
  Int.le_of_lt_add_one (Int.bmod_lt (by decide))

theorem toUnsigned_lt (n : Int) : toUnsigned n < 4294967296 := by
  unfold toUnsigned
  omega

theorem nat_fits (n : Nat) : -intMax - 1 ≤ n :=
  le_trans (by decide) (Int.natCast_nonneg n)

theorem mod_lt (n : Nat) : n % maxRecv < 14600 := Nat.mod_lt n (by decide)

/-- The length of the last block, where the product is right or wraps around. -/
theorem toUnsigned_rest {n : Nat} {product : Int}
    (h : toInt product = toInt (maxRecv * (n / maxRecv : Nat))) :
    toUnsigned (toInt (n - product)) = n % maxRecv := by
  have hdiv : (n : Int) - maxRecv * (n / maxRecv : Nat) = (n % maxRecv : Nat) := by
    have := Nat.div_add_mod n maxRecv
    omega
  have hlt := mod_lt n
  have heq : toInt (n - product) = (n % maxRecv : Nat) := by
    unfold toInt at h ⊢
    rw [← Int.sub_bmod_bmod, h, Int.sub_bmod_bmod, hdiv]
    exact toInt_of_fits (nat_fits _) (by unfold intMax; omega)
  rw [heq, toUnsigned]
  omega

theorem rest_wrapMul (n : Nat) :
    toUnsigned (toInt (n - wrapMul maxRecv (n / maxRecv : Nat))) = n % maxRecv :=
  toUnsigned_rest (toInt_toInt _)

/-! ## Which bodies are relayed -/

variable {sends : Sends} {mul : Int → Int → Int} {n : Nat} {s : Posting} {body extra : Str}

/-- The code goes on behind the body, and the server has taken its bytes and no others. -/
def RelayedWhole (body : Str) (s : Posting) (out : Option (Int × Posting)) : Prop :=
  ∃ s', out = some (0, s') ∧ s'.ToServer.sent = s.ToServer.sent ++ body

theorem clientBody_fits (h : ((n / maxRecv : Nat) : Int) ≤ intMax) :
    clientBody sends mul n s =
      clientBodyLoop sends (toUnsigned (toInt (n - mul maxRecv (n / maxRecv : Nat))))
        (decide (((n / maxRecv : Nat) : Int) = intMax)) (n / maxRecv) s := by
  have heq : toInt (n / maxRecv : Nat) = (n / maxRecv : Nat) :=
    toInt_of_fits (nat_fits _) h
  unfold clientBody
  dsimp only
  rw [heq, if_neg (Int.not_lt.mpr (Int.natCast_nonneg _)), Int.toNat_natCast]

/-- The body is relayed whole when the lengths of the blocks add up to its length, the last one is
not empty, and the loop ends. -/
theorem clientBody_whole (hsends : Accepting sends) (hlen : body.length = n)
    (hstream : s.ToBrowser.stream = body ++ extra)
    (hrest : toUnsigned (toInt (n - mul maxRecv (n / maxRecv : Nat))) = n % maxRecv)
    (hne : n % maxRecv ≠ 0) (hlt : ((n / maxRecv : Nat) : Int) < intMax) :
    RelayedWhole body s (clientBody sends mul n s) := by
  have hmod := mod_lt n
  have hdiv := Nat.div_add_mod n maxRecv
  have htake : (body.take (maxRecv * (n / maxRecv))).length = maxRecv * (n / maxRecv) :=
    List.length_take_of_le (by omega)
  have hdrop : (body.drop (maxRecv * (n / maxRecv))).length = n % maxRecv := by
    rw [List.length_drop]
    omega
  have hsplit : s.ToBrowser.stream =
      body.take (maxRecv * (n / maxRecv)) ++ (body.drop (maxRecv * (n / maxRecv)) ++ extra) := by
    rw [← List.append_assoc, List.take_append_drop, hstream]
  rw [clientBody_fits hlt.le, hrest, decide_eq_false hlt.ne]
  obtain ⟨s₁, hloop, hsent, hstream₁⟩ := clientBodyLoop_blocks hsends _ htake hsplit
  have hfits : ((n % maxRecv : Nat) : Int) ≤ intMax := by
    unfold intMax
    omega
  obtain ⟨s', hblock, hsent', -⟩ := relayBlock_spec hsends
    (List.ne_nil_of_length_pos (by omega)) (hdrop ▸ hfits) hstream₁
  rw [hdrop] at hblock
  refine ⟨s', ?_, ?_⟩
  · rw [hloop, clientBodyLoop, hblock]
    rfl
  · rw [hsent', hsent, List.append_assoc, List.take_append_drop]

/-- A body that ends with a whole block is sent, and the send of nothing behind it fails. -/
theorem clientBody_multiple (hsends : Accepting sends) (hlen : body.length = n)
    (hstream : s.ToBrowser.stream = body ++ extra)
    (hrest : toUnsigned (toInt (n - mul maxRecv (n / maxRecv : Nat))) = n % maxRecv)
    (hzero : n % maxRecv = 0) (hle : ((n / maxRecv : Nat) : Int) ≤ intMax) :
    ∃ s', clientBody sends mul n s = some (-76, s') ∧
      s'.ToServer.sent = s.ToServer.sent ++ body := by
  have hdiv := Nat.div_add_mod n maxRecv
  rw [clientBody_fits hle, hrest, hzero]
  obtain ⟨s₁, hloop, hsent, -⟩ :=
    clientBodyLoop_blocks hsends (n / maxRecv) (by omega) hstream
  obtain ⟨s', hblock, hsent'⟩ := relayBlock_zero hsends s₁
  refine ⟨s', ?_, hsent'.trans hsent⟩
  rw [hloop, clientBodyLoop, hblock]
  rfl

/-- A body is not relayed whole when its blocks are too short. -/
theorem clientBody_short (hlen : body.length = n)
    (hshort : maxRecv * (toInt (n / maxRecv : Nat)).toNat +
      toUnsigned (toInt (n - mul maxRecv (toInt (n / maxRecv : Nat)))) < n) :
    ¬ RelayedWhole body s (clientBody sends mul n s) := by
  rintro ⟨s', h, hsent⟩
  have hall : s'.ToServer.sent.length = s.ToServer.sent.length + n := by
    rw [hsent, List.length_append, hlen]
  unfold clientBody at h
  dsimp only at h
  split at h
  · cases h
    omega
  · have := clientBodyLoop_sent _ h
    omega

/-- The number of blocks of a body does not fit. -/
theorem clientBody_wrapped (hlen : body.length = n) (h : intMax < ((n / maxRecv : Nat) : Int)) :
    ¬ RelayedWhole body s (clientBody sends mul n s) := by
  apply clientBody_short hlen
  have hdiv := Nat.div_add_mod n maxRecv
  have hrest := toUnsigned_lt (toInt (n - mul maxRecv (toInt (n / maxRecv : Nat))))
  have hmax := toInt_le (n / maxRecv : Nat)
  have hwrap : toInt (n / maxRecv : Nat) % 4294967296 = ((n / maxRecv : Nat) : Int) % 4294967296 :=
    Int.bmod_emod
  have hmul : maxRecv * ((toInt (n / maxRecv : Nat)).toNat + 2147483648) ≤ maxRecv * (n / maxRecv) := by
    apply Nat.mul_le_mul_left
    unfold intMax at *
    omega
  rw [Nat.mul_add] at hmul
  have hbig : maxRecv * 2147483648 = 31353261260800 := rfl
  omega

/-- The counter of the loop does not get behind the last block. -/
theorem clientBody_greatest (h : ((n / maxRecv : Nat) : Int) = intMax) :
    ¬ RelayedWhole body s (clientBody sends mul n s) := by
  rintro ⟨s', hout, -⟩
  rw [clientBody_fits h.le, decide_eq_true h] at hout
  generalize n / maxRecv = left at hout
  generalize toUnsigned _ = rest at hout
  induction left generalizing s with
  | zero =>
    obtain ⟨⟨ret, s₁⟩, -, hout⟩ := Option.bind_eq_some_iff.mp hout
    dsimp only at hout
    split at hout
    · next hneg =>
      cases hout
      exact absurd hneg (by decide)
    · cases hout
  | succ left ih =>
    obtain ⟨⟨ret, s₁⟩, -, hout⟩ := Option.bind_eq_some_iff.mp hout
    dsimp only at hout
    split at hout
    · next hneg =>
      cases hout
      exact absurd hneg (by decide)
    · exact ih hout

theorem wrapMul_right : IntMul wrapMul := fun _ _ hmin hmax => toInt_of_fits hmin hmax

/-- A product that is wrong where it does not fit. -/
def wrongMul (x y : Int) : Int :=
  if -intMax - 1 ≤ x * y ∧ x * y ≤ intMax then x * y else x * y + 1

theorem wrongMul_right : IntMul wrongMul := fun _ _ hmin hmax => if_pos ⟨hmin, hmax⟩

/-- With a product that wraps around, the bodies that do not end with a whole block are relayed, up
to the length of which the blocks cannot be counted. -/
theorem clientBody_wrapMul (hsends : Accepting sends) (hlen : body.length = n)
    (hstream : s.ToBrowser.stream = body ++ extra) :
    RelayedWhole body s (clientBody sends wrapMul n s) ↔
      n % maxRecv ≠ 0 ∧ ((n / maxRecv : Nat) : Int) < intMax := by
  constructor
  · intro h
    have hle : ((n / maxRecv : Nat) : Int) ≤ intMax :=
      Int.not_lt.mp fun hgt => clientBody_wrapped hlen hgt h
    refine ⟨fun hzero => ?_, lt_of_le_of_ne hle fun heq => clientBody_greatest heq h⟩
    obtain ⟨s₁, hfail, -⟩ := clientBody_multiple hsends hlen hstream (rest_wrapMul n) hzero hle
    obtain ⟨s₂, hok, -⟩ := h
    rw [hfail] at hok
    cases hok
  · exact fun h => clientBody_whole hsends hlen hstream (rest_wrapMul n) h.1 h.2

/-- **The bodies that are relayed whole**, whatever the product of two `int`s is that does not fit,
and with the one that wraps around. -/
theorem clientBody_relayed (hsends : Accepting sends) (hlen : body.length = n)
    (hstream : s.ToBrowser.stream = body ++ extra) :
    ((∀ mul, IntMul mul → RelayedWhole body s (clientBody sends mul n s)) ↔
        n % maxRecv ≠ 0 ∧ ((maxRecv * (n / maxRecv) : Nat) : Int) ≤ intMax) ∧
      (RelayedWhole body s (clientBody sends wrapMul n s) ↔
        n % maxRecv ≠ 0 ∧ ((n / maxRecv : Nat) : Int) < intMax) := by
  refine ⟨⟨fun h => ?_, fun ⟨hne, hfits⟩ mul hmul => ?_⟩, clientBody_wrapMul hsends hlen hstream⟩
  · obtain ⟨hne, hlt⟩ := (clientBody_wrapMul hsends hlen hstream).mp (h wrapMul wrapMul_right)
    refine ⟨hne, Int.not_lt.mp fun hgt => ?_⟩
    apply clientBody_short hlen _ (h wrongMul wrongMul_right)
    have hdiv := Nat.div_add_mod n maxRecv
    have hmod := mod_lt n
    have hrest : (n : Int) - wrongMul maxRecv (n / maxRecv : Nat) = (n % maxRecv : Nat) - 1 := by
      rw [wrongMul, if_neg fun h => Int.not_le.mpr hgt (by rw [Int.natCast_mul]; exact h.2)]
      omega
    have hfits : toInt ((n % maxRecv : Nat) - 1) = (n % maxRecv : Nat) - 1 :=
      toInt_of_fits (by unfold intMax; omega) (by unfold intMax; omega)
    rw [toInt_of_fits (nat_fits _) hlt.le, hrest, hfits, Int.toNat_natCast, toUnsigned]
    omega
  · have hproduct : mul maxRecv (n / maxRecv : Nat) = maxRecv * (n / maxRecv : Nat) := by
      rw [Int.natCast_mul] at hfits
      refine hmul _ _ ?_ hfits
      rw [← Int.natCast_mul]
      exact nat_fits _
    have hlt : ((n / maxRecv : Nat) : Int) < intMax := by
      unfold maxRecv intMax at *
      omega
    exact clientBody_whole hsends hlen hstream (toUnsigned_rest (congrArg toInt hproduct)) hne hlt

/-- A server that takes every string at once. -/
def takesAll : Sends := fun _ left => left.length

theorem takesAll_accepting : Accepting takesAll :=
  ⟨fun _ _ hne => ⟨Int.ofNat_lt.mpr (List.length_pos_iff.mpr hne), le_rfl⟩, fun _ => rfl⟩

/-- A browser that has sent a body of the given length, and a server that has taken nothing. -/
def posted (n : Nat) : Posting := ⟨⟨List.replicate n 'a', [], false⟩, ⟨[], 0⟩⟩

theorem posted_stream (n : Nat) : (posted n).ToBrowser.stream = List.replicate n 'a' ++ [] := by
  simp [posted, SocketHandler.stream]

/-- A body of two whole blocks and a rest. -/
theorem clientBody_relayed_blocks : RelayedWhole (List.replicate 30000 'a') (posted 30000)
    (clientBody takesAll wrapMul 30000 (posted 30000)) :=
  (clientBody_relayed takesAll_accepting (List.length_replicate (n := 30000) (a := 'a'))
    (posted_stream 30000)).2.mpr (by decide)

/-- A body of one whole block is sent, and the code returns -76. -/
theorem clientBody_block_dropped :
    (∃ s', clientBody takesAll wrapMul 14600 (posted 14600) = some (-76, s')) ∧
      ¬ RelayedWhole (List.replicate 14600 'a') (posted 14600)
        (clientBody takesAll wrapMul 14600 (posted 14600)) := by
  obtain ⟨s', hfail, -⟩ := clientBody_multiple takesAll_accepting List.length_replicate
    (posted_stream 14600) (rest_wrapMul 14600) (Nat.mod_self _) (by decide)
  refine ⟨⟨s', hfail⟩, ?_⟩
  rintro ⟨s₁, hok, -⟩
  rw [hfail] at hok
  cases hok

end Haarp
