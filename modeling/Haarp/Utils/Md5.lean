import Haarp.Base.Absorb
import Haarp.Utils.Strings
import Mathlib.Algebra.Group.Nat.Defs

/-!
# Digests

`md5.cpp` takes a text in pieces and keeps up to 63 bytes of it in a buffer, with a counter of bits in two
words. `MD5.Fed` is what holds of its members behind any pieces, in terms of the text at once, and
`MD5.Fed.finalize` what the digest is then: the blocks of the text with the padding and its length.

* `MD5.hexdigest_updates`: the digest does not depend on the pieces, nor on what the members had before.
-/

namespace Haarp

open Base (absorb foldBlocks)

namespace MD5

/-- `state`: the four words, in the order in which an operation takes them. -/
structure Words where
  a : UInt32
  b : UInt32
  c : UInt32
  d : UInt32
  deriving DecidableEq, Repr

/-! ## A block -/

def F (x y z : UInt32) : UInt32 := (x &&& y) ||| (~~~x &&& z)

def G (x y z : UInt32) : UInt32 := (x &&& z) ||| (y &&& ~~~z)

def H (x y z : UInt32) : UInt32 := x ^^^ y ^^^ z

def I (x y z : UInt32) : UInt32 := y ^^^ (x ||| ~~~z)

/-- `rotate_left` -/
def rotateLeft (x n : UInt32) : UInt32 := (x <<< n) ||| (x >>> (32 - n))

/-- `FF`, `GG`, `HH` and `II`, with the words in the order of the next operation. -/
def operation (g : UInt32 → UInt32 → UInt32 → UInt32) (x : List UInt32) (w : Words)
    (line : Nat × UInt32 × UInt32) : Words :=
  let (k, s, ac) := line
  ⟨w.d, rotateLeft (w.a + g w.b w.c w.d + x.getD k 0 + ac) s + w.b, w.b, w.c⟩

/-- The operations of each round: the index in `x`, the shift and the constant. -/
def round1 : List (Nat × UInt32 × UInt32) :=
  [(0, 7, 0xd76aa478), (1, 12, 0xe8c7b756), (2, 17, 0x242070db), (3, 22, 0xc1bdceee),
    (4, 7, 0xf57c0faf), (5, 12, 0x4787c62a), (6, 17, 0xa8304613), (7, 22, 0xfd469501),
    (8, 7, 0x698098d8), (9, 12, 0x8b44f7af), (10, 17, 0xffff5bb1), (11, 22, 0x895cd7be),
    (12, 7, 0x6b901122), (13, 12, 0xfd987193), (14, 17, 0xa679438e), (15, 22, 0x49b40821)]

def round2 : List (Nat × UInt32 × UInt32) :=
  [(1, 5, 0xf61e2562), (6, 9, 0xc040b340), (11, 14, 0x265e5a51), (0, 20, 0xe9b6c7aa),
    (5, 5, 0xd62f105d), (10, 9, 0x2441453), (15, 14, 0xd8a1e681), (4, 20, 0xe7d3fbc8),
    (9, 5, 0x21e1cde6), (14, 9, 0xc33707d6), (3, 14, 0xf4d50d87), (8, 20, 0x455a14ed),
    (13, 5, 0xa9e3e905), (2, 9, 0xfcefa3f8), (7, 14, 0x676f02d9), (12, 20, 0x8d2a4c8a)]

def round3 : List (Nat × UInt32 × UInt32) :=
  [(5, 4, 0xfffa3942), (8, 11, 0x8771f681), (11, 16, 0x6d9d6122), (14, 23, 0xfde5380c),
    (1, 4, 0xa4beea44), (4, 11, 0x4bdecfa9), (7, 16, 0xf6bb4b60), (10, 23, 0xbebfbc70),
    (13, 4, 0x289b7ec6), (0, 11, 0xeaa127fa), (3, 16, 0xd4ef3085), (6, 23, 0x4881d05),
    (9, 4, 0xd9d4d039), (12, 11, 0xe6db99e5), (15, 16, 0x1fa27cf8), (2, 23, 0xc4ac5665)]

def round4 : List (Nat × UInt32 × UInt32) :=
  [(0, 6, 0xf4292244), (7, 10, 0x432aff97), (14, 15, 0xab9423a7), (5, 21, 0xfc93a039),
    (12, 6, 0x655b59c3), (3, 10, 0x8f0ccc92), (10, 15, 0xffeff47d), (1, 21, 0x85845dd1),
    (8, 6, 0x6fa87e4f), (15, 10, 0xfe2ce6e0), (6, 15, 0xa3014314), (13, 21, 0x4e0811a1),
    (4, 6, 0xf7537e82), (11, 10, 0xbd3af235), (2, 15, 0x2ad7d2bb), (9, 21, 0xeb86d391)]

/-- `decode` -/
def decode : List UInt8 → List UInt32
  | p :: q :: r :: s :: input =>
    (p.toUInt32 ||| q.toUInt32 <<< 8 ||| r.toUInt32 <<< 16 ||| s.toUInt32 <<< 24) :: decode input
  | _ => []

/-- `encode` -/
def encode (input : List UInt32) : List UInt8 :=
  input.flatMap fun x : UInt32 =>
    [(x &&& 0xff).toUInt8, ((x >>> 8) &&& 0xff).toUInt8, ((x >>> 16) &&& 0xff).toUInt8,
      ((x >>> 24) &&& 0xff).toUInt8]

/-- `transform` -/
def transform (w : Words) (block : List UInt8) : Words :=
  let x := decode block
  let v := round4.foldl (operation I x) (round3.foldl (operation H x)
    (round2.foldl (operation G x) (round1.foldl (operation F x) w)))
  ⟨w.a + v.a, w.b + v.b, w.c + v.c, w.d + v.d⟩

end MD5

/-! ## The pieces -/

/-- `MD5`; `buffer` has 64 bytes, and `count` is the low and the high word. -/
structure MD5 where
  finalized : Bool
  buffer : List UInt8
  count : UInt32 × UInt32
  state : MD5.Words
  digest : List UInt8
  deriving DecidableEq, Repr

namespace MD5

/-- The constants of `init`. -/
def initial : Words := ⟨0x67452301, 0xefcdab89, 0x98badcfe, 0x10325476⟩

/-- `init`; nothing is put into `buffer` and `digest`. -/
def init (buffer digest : List UInt8) : MD5 := ⟨false, buffer, (0, 0), initial, digest⟩

/-- `memcpy(&buffer[index], input, ..)` -/
def memcpy (buffer : List UInt8) (index : Nat) (input : List UInt8) : List UInt8 :=
  buffer.take index ++ input ++ buffer.drop (index + input.length)

/-- The loop of `update` over the blocks of `input` from `i` on: where it ends, and the words. The sum
`i + blocksize` is one of 32 bits: for a length from 2 ^ 32 - 64 on it may begin again at 0, and the
source then reads on and on behind the text, where the model runs out of fuel. -/
def updateLoop (input : List UInt8) : Nat → Nat → Words → Nat × Words
  | 0, i, w => (i, w)
  | fuel + 1, i, w =>
    if (i + 64) % 2 ^ 32 ≤ input.length then
      updateLoop input fuel ((i + 64) % 2 ^ 32) (transform w ((input.drop i).take 64))
    else (i, w)

/-- The counter behind `length` more bytes. -/
def counted (length : UInt32) (count : UInt32 × UInt32) : UInt32 × UInt32 :=
  let low := count.1 + length <<< 3
  (low, (if low < length <<< 3 then count.2 + 1 else count.2) + length >>> 29)

/-- `count[0] / 8 % blocksize` -/
def index (m : MD5) : Nat := (m.count.1 / 8 % 64).toNat

/-- `update` -/
def update (m : MD5) (input : List UInt8) : MD5 :=
  let count := counted (UInt32.ofNat input.length) m.count
  let firstpart := 64 - m.index
  if firstpart ≤ input.length then
    let buffer := memcpy m.buffer m.index (input.take firstpart)
    let (i, state) := updateLoop input input.length firstpart (transform m.state buffer)
    { m with count, state, buffer := memcpy buffer 0 (input.drop i) }
  else { m with count, buffer := memcpy m.buffer m.index input }

/-- `padding` -/
def padding : List UInt8 := 0x80 :: List.replicate 63 0

/-- `finalize` -/
def finalize (m : MD5) : MD5 :=
  if m.finalized then m
  else
    let bits := encode [m.count.1, m.count.2]
    let padLen := if m.index < 56 then 56 - m.index else 120 - m.index
    let m := (m.update (padding.take padLen)).update bits
    { m with
      digest := encode [m.state.a, m.state.b, m.state.c, m.state.d]
      buffer := List.replicate 64 0
      count := (0, 0)
      finalized := true }

/-- `%x` of one digit. -/
def hexDigit (n : Nat) : Char := "0123456789abcdef".toList.getD n '0'

/-- `%02x` -/
def hexByte (byte : UInt8) : Str := [hexDigit (byte.toNat / 16), hexDigit (byte.toNat % 16)]

/-- `hexdigest` -/
def hexdigest (m : MD5) : Str := if m.finalized then m.digest.flatMap hexByte else []

end MD5

/-- The bytes of a text. -/
def bytes (str : Str) : List UInt8 := str.map fun c => UInt8.ofNat c.toNat

/-- `md5`; the members that are not set have the values `buffer` and `digest`. -/
def md5 (buffer digest : List UInt8) (str : Str) : Str :=
  ((MD5.init buffer digest).update (bytes str)).finalize.hexdigest

/-! ## The text at once -/

namespace MD5

/-- The bytes of `0x80` and zeros in front of the length. -/
def padLength (length : Nat) : Nat :=
  if length % 64 < 56 then 56 - length % 64 else 120 - length % 64

/-- The number of bits, the low byte first. -/
def lengthBytes (length : Nat) : List UInt8 :=
  [UInt8.ofNat (8 * length), UInt8.ofNat (8 * length / 2 ^ 8), UInt8.ofNat (8 * length / 2 ^ 16),
    UInt8.ofNat (8 * length / 2 ^ 24), UInt8.ofNat (8 * length / 2 ^ 32),
    UInt8.ofNat (8 * length / 2 ^ 40), UInt8.ofNat (8 * length / 2 ^ 48),
    UInt8.ofNat (8 * length / 2 ^ 56)]

/-- The text with its padding: whole blocks. -/
def padded (all : List UInt8) : List UInt8 :=
  all ++ padding.take (padLength all.length) ++ lengthBytes all.length

/-- The digest of a text. -/
def digestOf (all : List UInt8) : List UInt8 :=
  let w := foldBlocks transform 64 ((padded all).length / 64) initial (padded all)
  encode [w.a, w.b, w.c, w.d]

/-! ## The members behind the pieces -/

/-- What holds of the members behind the text `all`. -/
structure Fed (m : MD5) (all : List UInt8) : Prop where
  running : m.finalized = false
  room : m.buffer.length = 64
  state : m.state = (absorb transform 64 initial all).1
  waiting : m.buffer.take (all.length % 64) = (absorb transform 64 initial all).2
  bits : m.count.1.toNat + 2 ^ 32 * m.count.2.toNat = 8 * all.length % 2 ^ 64

variable {m : MD5} {all input : List UInt8}

theorem fed_init {buffer : List UInt8} (hbuffer : buffer.length = 64) (digest : List UInt8) :
    Fed (init buffer digest) [] := ⟨rfl, hbuffer, rfl, rfl, rfl⟩

theorem Fed.index (h : Fed m all) : m.index = all.length % 64 := by
  have hbits := h.bits
  have hlow := m.count.1.toNat_lt
  have hindex : m.index = m.count.1.toNat / 8 % 64 := by
    simp [MD5.index]
  rw [hindex]
  omega

/-- The two words count up to 2 ^ 64 bits. -/
theorem counted_spec (count : UInt32 × UInt32) {length : Nat} (hlength : length < 2 ^ 32) :
    (counted (UInt32.ofNat length) count).1.toNat +
        2 ^ 32 * (counted (UInt32.ofNat length) count).2.toNat =
      (count.1.toNat + 2 ^ 32 * count.2.toNat + 8 * length) % 2 ^ 64 := by
  have hlow := count.1.toNat_lt
  have hhigh := count.2.toNat_lt
  have hofNat : (UInt32.ofNat length).toNat = length := UInt32.toNat_ofNat_of_lt' hlength
  have hshift : (UInt32.ofNat length <<< 3).toNat = 8 * length % 2 ^ 32 := by
    rw [UInt32.toNat_shiftLeft, hofNat, show (3 : UInt32).toNat % 32 = 3 from rfl, Nat.shiftLeft_eq]
    omega
  have hhigh' : (UInt32.ofNat length >>> 29).toNat = length / 2 ^ 29 := by
    rw [UInt32.toNat_shiftRight, hofNat, show (29 : UInt32).toNat % 32 = 29 from rfl,
      Nat.shiftRight_eq_div_pow]
  unfold counted
  dsimp only
  split
  · next hcarry =>
    rw [UInt32.lt_iff_toNat_lt, UInt32.toNat_add, hshift] at hcarry
    rw [UInt32.toNat_add, UInt32.toNat_add, UInt32.toNat_add, hshift, hhigh', UInt32.toNat_one]
    omega
  · next hcarry =>
    rw [UInt32.lt_iff_toNat_lt, UInt32.toNat_add, hshift] at hcarry
    rw [UInt32.toNat_add, UInt32.toNat_add, hshift, hhigh']
    omega

theorem length_memcpy {buffer : List UInt8} {i : Nat} (h : i + input.length ≤ buffer.length) :
    (memcpy buffer i input).length = buffer.length := by
  simp [memcpy]
  omega

theorem take_memcpy {buffer : List UInt8} {i : Nat} (h : i ≤ buffer.length) :
    (memcpy buffer i input).take (i + input.length) = buffer.take i ++ input := by
  unfold memcpy
  rw [List.take_left']
  rw [List.length_append, List.length_take_of_le h]

/-- The loop takes all blocks that are left, while `i + blocksize` fits. -/
theorem updateLoop_eq {fuel i : Nat} (hfits : input.length + 64 < 2 ^ 32) (hi : i ≤ input.length)
    (hfuel : input.length ≤ i + fuel) (w : Words) :
    updateLoop input fuel i w =
      (i + (input.length - i) / 64 * 64, (absorb transform 64 w (input.drop i)).1) := by
  induction fuel generalizing i w with
  | zero =>
    have hnone : input.length - i = 0 := by omega
    have hrest : (input.drop i).length < 64 := by
      rw [List.length_drop, hnone]
      decide
    rw [updateLoop, Base.absorb_of_lt hrest, hnone]
    rfl
  | succ fuel ih =>
    unfold updateLoop
    rw [Nat.mod_eq_of_lt (by omega : i + 64 < 2 ^ 32)]
    split
    · next hblock =>
      have hfirst : ((input.drop i).take 64).length = 64 := by
        rw [List.length_take, List.length_drop]
        omega
      have hcount : (input.length - i) / 64 = (input.length - (i + 64)) / 64 + 1 := by omega
      have habsorb : (absorb transform 64 w (input.drop i)).1 =
          (absorb transform 64 (transform w ((input.drop i).take 64)) (input.drop (i + 64))).1 := by
        rw [← List.drop_drop, ← List.nil_append (input.drop i)]
        exact congrArg Prod.fst (Base.absorb_fill (by decide) hfirst)
      rw [ih hblock (by omega), hcount, habsorb, Nat.add_mul]
      congr 1
      omega
    · next hlast =>
      have hrest : (input.drop i).length < 64 := by
        rw [List.length_drop]
        omega
      rw [Base.absorb_of_lt hrest, Nat.div_eq_of_lt (by omega)]
      rfl

/-- **A piece is added to the text.** -/
theorem Fed.update (h : Fed m all) (hinput : input.length + 64 < 2 ^ 32) :
    Fed (m.update input) (all ++ input) := by
  have hindex := h.index
  have hroom := h.room
  have hmod : all.length % 64 < 64 := Nat.mod_lt _ (by decide)
  have habsorb : absorb transform 64 initial (all ++ input) =
      absorb transform 64 m.state (m.buffer.take (all.length % 64) ++ input) := by
    rw [Base.absorb_append (by decide), ← h.state, ← h.waiting]
  have hbits : (counted (UInt32.ofNat input.length) m.count).1.toNat +
      2 ^ 32 * (counted (UInt32.ofNat input.length) m.count).2.toNat =
        8 * (all ++ input).length % 2 ^ 64 := by
    rw [counted_spec m.count (by omega), h.bits, List.length_append]
    omega
  have hlength : (all ++ input).length % 64 = (all.length % 64 + input.length) % 64 := by
    rw [List.length_append]
    omega
  unfold MD5.update
  dsimp only
  rw [hindex]
  split
  · next hfull =>
    have hfirst : (input.take (64 - all.length % 64)).length = 64 - all.length % 64 :=
      List.length_take_of_le hfull
    -- The buffer is full: it is the block that ends in this piece.
    have hblock : memcpy m.buffer (all.length % 64) (input.take (64 - all.length % 64)) =
        m.buffer.take (all.length % 64) ++ input.take (64 - all.length % 64) := by
      rw [← take_memcpy (by omega)]
      refine (List.take_of_length_le ?_).symm
      rw [length_memcpy (by omega), hfirst]
      omega
    have hblockLength : (m.buffer.take (all.length % 64) ++
        input.take (64 - all.length % 64)).length = 64 := by
      rw [List.length_append, List.length_take_of_le (by omega), hfirst]
      omega
    have hrest : absorb transform 64 initial (all ++ input) =
        absorb transform 64 (transform m.state (m.buffer.take (all.length % 64) ++
          input.take (64 - all.length % 64))) (input.drop (64 - all.length % 64)) := by
      rw [habsorb, Base.absorb_fill (by decide) hblockLength]
    rw [hblock, updateLoop_eq hinput hfull (Nat.le_add_left _ _)]
    have hleft : (input.drop (64 - all.length % 64 +
        (input.length - (64 - all.length % 64)) / 64 * 64)) =
          (absorb transform 64 initial (all ++ input)).2 := by
      rw [hrest, absorb, List.length_drop, List.drop_drop]
    have hleftLength : (absorb transform 64 initial (all ++ input)).2.length =
        (all ++ input).length % 64 := Base.length_absorb
    refine ⟨h.running, ?_, ?_, ?_, hbits⟩
    · rw [hleft, length_memcpy (by rw [hleftLength, hblockLength]; omega)]
      exact hblockLength
    · rw [hrest]
    · dsimp only
      rw [hleft, ← hleftLength]
      conv_lhs => rw [← Nat.zero_add (absorb transform 64 initial (all ++ input)).2.length]
      exact take_memcpy (Nat.zero_le _)
  · next hpart =>
    have hwaiting : (m.buffer.take (all.length % 64) ++ input).length < 64 := by
      rw [List.length_append, List.length_take_of_le (by omega)]
      omega
    rw [Base.absorb_of_lt hwaiting] at habsorb
    refine ⟨h.running, ?_, ?_, ?_, hbits⟩
    · exact (length_memcpy (by omega)).trans hroom
    · rw [habsorb]
    · rw [habsorb, hlength, Nat.mod_eq_of_lt (by omega)]
      exact take_memcpy (by omega)

theorem fed_updates {pieces : List (List UInt8)} (h : Fed m all)
    (hpieces : ∀ piece ∈ pieces, piece.length + 64 < 2 ^ 32) :
    Fed (pieces.foldl MD5.update m) (all ++ pieces.flatten) := by
  induction pieces generalizing m all with
  | nil => simpa using h
  | cons piece pieces ih =>
    have hpiece := hpieces piece List.mem_cons_self
    rw [List.flatten_cons, ← List.append_assoc]
    exact ih (h.update hpiece) fun p hp => hpieces p (List.mem_cons_of_mem piece hp)

/-! ## The digest -/

theorem encode_cons (x : UInt32) (input : List UInt32) :
    encode (x :: input) = [UInt8.ofNat x.toNat, UInt8.ofNat (x.toNat / 2 ^ 8),
      UInt8.ofNat (x.toNat / 2 ^ 16), UInt8.ofNat (x.toNat / 2 ^ 24)] ++ encode input := by
  have hbyte : ∀ k : UInt32, k.toNat < 32 → ((x >>> k) &&& 0xff).toUInt8 =
      UInt8.ofNat (x.toNat / 2 ^ k.toNat) := by
    intro k hk
    apply UInt8.toNat_inj.mp
    have hmask : (0xff : UInt32).toNat = 2 ^ 8 - 1 := rfl
    rw [UInt32.toNat_toUInt8, UInt32.toNat_and, UInt32.toNat_shiftRight, hmask,
      Nat.and_two_pow_sub_one_eq_mod, Nat.mod_mod, Nat.mod_eq_of_lt hk, Nat.shiftRight_eq_div_pow,
      UInt8.toNat_ofNat']
  have hfirst : (x &&& 0xff).toUInt8 = UInt8.ofNat x.toNat := by
    have hzero := hbyte 0 (by decide)
    rwa [UInt32.shiftRight_zero, UInt32.toNat_zero, Nat.pow_zero, Nat.div_one] at hzero
  have hsecond := hbyte 8 (by decide)
  have hthird := hbyte 16 (by decide)
  have hfourth := hbyte 24 (by decide)
  rw [encode, List.flatMap_cons, hfirst, hsecond, hthird, hfourth]
  rfl

theorem ofNat_congr {j k : Nat} (h : j % 256 = k % 256) : UInt8.ofNat j = UInt8.ofNat k := by
  apply UInt8.toNat_inj.mp
  rw [UInt8.toNat_ofNat', UInt8.toNat_ofNat']
  exact h

/-- The counter is written as the number of bits. -/
theorem Fed.encode_count (h : Fed m all) :
    encode [m.count.1, m.count.2] = lengthBytes all.length := by
  have hbits := h.bits
  have hlow := m.count.1.toNat_lt
  have hhigh := m.count.2.toNat_lt
  rw [encode_cons, encode_cons]
  simp only [encode, List.flatMap_nil, List.append_nil, List.cons_append, List.nil_append, lengthBytes,
    List.cons.injEq, and_true]
  refine ⟨?_, ?_, ?_, ?_, ?_, ?_, ?_, ?_⟩ <;> apply ofNat_congr <;> omega

theorem Fed.finalize (h : Fed m all) :
    m.finalize.finalized = true ∧ m.finalize.digest = digestOf all := by
  have hindex := h.index
  have hpadLength : (if m.index < 56 then 56 - m.index else 120 - m.index) = padLength all.length := by
    rw [hindex]
    rfl
  have hpad : (padding.take (padLength all.length)).length + 64 < 2 ^ 32 := by
    have htake : (padding.take (padLength all.length)).length ≤ 64 := List.length_take_le' _ padding
    omega
  have hfed : Fed ((m.update (padding.take (padLength all.length))).update
      (lengthBytes all.length)) (padded all) := (h.update hpad).update (by simp [lengthBytes])
  unfold MD5.finalize
  rw [if_neg (by rw [h.running]; decide), hpadLength, h.encode_count]
  refine ⟨rfl, ?_⟩
  dsimp only
  rw [hfed.state]
  rfl

theorem Fed.hexdigest (h : Fed m all) : m.finalize.hexdigest = (digestOf all).flatMap hexByte := by
  obtain ⟨hfinalized, hdigest⟩ := h.finalize
  rw [MD5.hexdigest, if_pos hfinalized, hdigest]

/-- **The digest of a text that comes in pieces** is the one of the text with its padding, whatever
the pieces of fewer than 2 ^ 32 - 64 bytes are, whatever `init` finds in the members that it does not
set, and also when the counter of bits goes round. -/
theorem hexdigest_updates (buffer digest : List UInt8) (hbuffer : buffer.length = 64)
    (pieces : List (List UInt8)) (hpieces : ∀ piece ∈ pieces, piece.length + 64 < 2 ^ 32) :
    (pieces.foldl MD5.update (init buffer digest)).finalize.hexdigest =
      (digestOf pieces.flatten).flatMap hexByte := by
  have hfed := fed_updates (fed_init hbuffer digest) hpieces
  rw [List.nil_append] at hfed
  exact hfed.hexdigest

theorem hexdigest_updates_abc :
    ([[0x61], [], [0x62, 0x63]].foldl MD5.update (init (List.replicate 64 7) [])).finalize.hexdigest =
      "900150983cd24fb0d6963f7d28e17f72".toList :=
  (hexdigest_updates (List.replicate 64 7) [] rfl [[0x61], [], [0x62, 0x63]] (by decide)).trans
    (by decide +kernel)

/-! ## The text of a digest -/

theorem mem_hexByte {byte : UInt8} {c : Char} (h : c ∈ hexByte byte) :
    c ∈ "0123456789abcdef".toList := by
  have hbyte := byte.toNat_lt
  have hdigit : ∀ n < 16, hexDigit n ∈ "0123456789abcdef".toList := by decide
  rcases List.mem_cons.mp h with rfl | h
  · exact hdigit _ (by omega)
  · rw [List.mem_singleton.mp h]
    exact hdigit _ (by omega)

theorem update_finalized (m : MD5) (input : List UInt8) : (m.update input).finalized = m.finalized := by
  unfold update
  dsimp only
  split <;> rfl

end MD5

/-- `md5` is a text of 32 digits. -/
theorem md5_text (buffer digest : List UInt8) (str : Str) : (md5 buffer digest str).length = 32 ∧
    ∀ c ∈ md5 buffer digest str, c ∈ "0123456789abcdef".toList := by
  have hnew : ((MD5.init buffer digest).update (bytes str)).finalized = false :=
    MD5.update_finalized _ _
  unfold md5 MD5.finalize
  rw [hnew, if_neg Bool.false_ne_true]
  constructor
  · simp [MD5.hexdigest, MD5.encode, MD5.hexByte]
  · intro c hc
    obtain ⟨byte, -, hbyte⟩ := List.mem_flatMap.mp hc
    exact MD5.mem_hexByte hbyte

/-- `md5` of a text of fewer than 2 ^ 32 - 64 bytes. -/
theorem md5_eq {buffer : List UInt8} (hbuffer : buffer.length = 64) (digest : List UInt8) {str : Str}
    (hstr : str.length + 64 < 2 ^ 32) :
    md5 buffer digest str = (MD5.digestOf (bytes str)).flatMap MD5.hexByte := by
  have hlength : (bytes str).length + 64 < 2 ^ 32 := by
    rw [bytes, List.length_map]
    exact hstr
  have hfed := (MD5.fed_init hbuffer digest).update hlength
  rw [List.nil_append] at hfed
  exact hfed.hexdigest

example : md5 (List.replicate 64 0) [] "message digest".toList =
    "f96b697d7cb7938d525a2f31aaf161d0".toList := by decide +kernel

end Haarp
