import Rtl88x2bu.Crypto.Block
import Rtl88x2bu.Lib.Tape

/-!
# SHA-256

`sha256_vector_typed` of `rust/sha256_internal.rs`, and the digest of FIPS 180-4. `none` stands for
an error and for an overflow of `length`.
-/

namespace Rtl88x2bu.Crypto.Sha256

open List Tape

variable (x y z : UInt32) (buf : List Byte)

structure Words where
  (a b c d e f g h : UInt32)
  deriving DecidableEq

def Words.add (s t : Words) : Words :=
  ⟨s.a + t.a, s.b + t.b, s.c + t.c, s.d + t.d, s.e + t.e, s.f + t.f, s.g + t.g, s.h + t.h⟩

def k : List UInt32 := [
  0x428a2f98, 0x71374491, 0xb5c0fbcf, 0xe9b5dba5, 0x3956c25b, 0x59f111f1, 0x923f82a4, 0xab1c5ed5,
  0xd807aa98, 0x12835b01, 0x243185be, 0x550c7dc3, 0x72be5d74, 0x80deb1fe, 0x9bdc06a7, 0xc19bf174,
  0xe49b69c1, 0xefbe4786, 0x0fc19dc6, 0x240ca1cc, 0x2de92c6f, 0x4a7484aa, 0x5cb0a9dc, 0x76f988da,
  0x983e5152, 0xa831c66d, 0xb00327c8, 0xbf597fc7, 0xc6e00bf3, 0xd5a79147, 0x06ca6351, 0x14292967,
  0x27b70a85, 0x2e1b2138, 0x4d2c6dfc, 0x53380d13, 0x650a7354, 0x766a0abb, 0x81c2c92e, 0x92722c85,
  0xa2bfe8a1, 0xa81a664b, 0xc24b8b70, 0xc76c51a3, 0xd192e819, 0xd6990624, 0xf40e3585, 0x106aa070,
  0x19a4c116, 0x1e376c08, 0x2748774c, 0x34b0bcb5, 0x391c0cb3, 0x4ed8aa4a, 0x5b9cca4f, 0x682e6ff3,
  0x748f82ee, 0x78a5636f, 0x84c87814, 0x8cc70208, 0x90befffa, 0xa4506ceb, 0xbef9a3f7, 0xc67178f2]

def rotr (n : UInt32) : UInt32 :=
  x >>> n ||| x <<< (32 - n)

def ror : UInt32 :=
  rotr x (y &&& 31)

def ch : UInt32 :=
  z ^^^ (x &&& (y ^^^ z))

def maj : UInt32 :=
  (x ||| y) &&& z ||| (x &&& y)

def sigma0 : UInt32 :=
  ror x 2 ^^^ ror x 13 ^^^ ror x 22

def sigma1 : UInt32 :=
  ror x 6 ^^^ ror x 11 ^^^ ror x 25

def gamma0 : UInt32 :=
  ror x 7 ^^^ ror x 18 ^^^ x >>> 3

def gamma1 : UInt32 :=
  ror x 17 ^^^ ror x 19 ^^^ x >>> 10

def getBe32 (i : ℕ) : UInt32 :=
  (buf.getD i 0).toUInt32 <<< 24 ||| (buf.getD (i + 1) 0).toUInt32 <<< 16 |||
    (buf.getD (i + 2) 0).toUInt32 <<< 8 ||| (buf.getD (i + 3) 0).toUInt32

def putBe32 (val : UInt32) : List Byte :=
  [(val >>> 24).toUInt8, (val >>> 16).toUInt8, (val >>> 8).toUInt8, val.toUInt8]

def Words.bytes (s : Words) : List Byte :=
  [s.a, s.b, s.c, s.d, s.e, s.f, s.g, s.h].flatMap putBe32

def expand : List UInt32 :=
  (range' 16 48).foldl (fun w i => w ++ [gamma1 (w.getD (i - 2) 0) + w.getD (i - 7) 0 +
    gamma0 (w.getD (i - 15) 0) + w.getD (i - 16) 0]) ((range 16).map fun i => getBe32 buf (4 * i))

def compressRound (w : List UInt32) (s : Words) (i : ℕ) : Words :=
  let t0 := s.h + sigma1 s.e + ch s.e s.f s.g + k.getD i 0 + w.getD i 0
  let t1 := sigma0 s.a + maj s.a s.b s.c
  ⟨t0 + t1, s.a, s.b, s.c, s.d + t0, s.e, s.f, s.g⟩

def sha256Compress (state : Words) (buf : List Byte) : Words :=
  state.add ((range 64).foldl (compressRound (expand buf)) state)

structure Sha256State where
  length : ℕ
  state : Words
  curlen : ℕ
  buf : ℕ → Byte

variable (md : Sha256State)

def sha256Init : Sha256State where
  length := 0
  state := ⟨0x6a09e667, 0xbb67ae85, 0x3c6ef372, 0xa54ff53a, 0x510e527f, 0x9b05688c, 0x1f83d9ab,
    0x5be0cd19⟩
  curlen := 0
  buf _ := 0

def addLength (bits : ℕ) : Option Sha256State :=
  if md.length + bits < 2 ^ 64 then some { md with length := md.length + bits } else none

def absorb (input : List Byte) : Option (Sha256State × List Byte) :=
  if md.curlen = 0 ∧ 64 ≤ input.length then
    (addLength { md with state := sha256Compress md.state (input.take 64) } 512).map
      fun md => (md, input.drop 64)
  else
    let n := min input.length (64 - md.curlen)
    let buf := paste md.buf md.curlen (input.take n)
    if md.curlen + n = 64 then
      (addLength { md with state := sha256Compress md.state (window buf 0 64), buf } 512).map
        fun md => ({ md with curlen := 0 }, input.drop n)
    else some ({ md with curlen := md.curlen + n, buf }, input.drop n)

def processLoop : ℕ → Sha256State → List Byte → Option Sha256State
  | 0, md, input => if input = [] then some md else none
  | fuel + 1, md, input =>
    if input = [] then some md
    else (absorb md input).bind fun next => processLoop fuel next.1 next.2

/-- `sha256_process_inner`. Every round takes a byte, so there are no more rounds than bytes. -/
def sha256ProcessInner (input : List Byte) : Option Sha256State :=
  if md.curlen ≥ 64 then none else processLoop input.length md input

def closeBlock (state : Words) (buf : ℕ → Byte) (curlen length : ℕ) : Words :=
  let buf := paste buf curlen (replicate (56 - curlen) 0)
  sha256Compress state (window (paste buf 56 (putBe64 length)) 0 64)

def sha256DoneInner : Option (List Byte) :=
  if md.curlen ≥ 64 then none
  else (addLength md (md.curlen * 8)).map fun md =>
    let buf := paste md.buf md.curlen [0x80]
    if md.curlen + 1 > 56 then
      let buf := paste buf (md.curlen + 1) (replicate (64 - (md.curlen + 1)) 0)
      (closeBlock (sha256Compress md.state (window buf 0 64)) buf 0 md.length).bytes
    else (closeBlock md.state buf (md.curlen + 1) md.length).bytes

def sha256VectorTyped (parts : List (List Byte)) : Option (List Byte) :=
  (parts.foldlM sha256ProcessInner sha256Init).bind sha256DoneInner

/-! ## FIPS 180-4 -/

/-- The first 32 bits of the fractional part of the `n`-th root of `p`. -/
def rootWord (n p : ℕ) : UInt32 :=
  .ofNat ((range 36).foldr
    (fun j r => if (r + 2 ^ j) ^ n ≤ p * 2 ^ (32 * n) then r + 2 ^ j else r) 0)

def primes : List ℕ :=
  (range 312).filter fun p => 2 ≤ p ∧ ∀ d ∈ range p, d ∣ p → d < 2

def W (block : List Byte) (t : ℕ) : UInt32 :=
  if t < 16 then getBe32 block (4 * t)
  else
    let σ₀ x := rotr x 7 ^^^ rotr x 18 ^^^ x >>> 3
    let σ₁ x := rotr x 17 ^^^ rotr x 19 ^^^ x >>> 10
    σ₁ (W block (t - 2)) + W block (t - 7) + σ₀ (W block (t - 15)) + W block (t - 16)

def hashRound (block : List Byte) (s : Words) (t : ℕ) : Words :=
  let Ch := (s.e &&& s.f) ^^^ (~~~s.e &&& s.g)
  let Maj := (s.a &&& s.b) ^^^ (s.a &&& s.c) ^^^ (s.b &&& s.c)
  let Sum := rotr s.e 6 ^^^ rotr s.e 11 ^^^ rotr s.e 25
  let T₁ := s.h + Sum + Ch + rootWord 3 (primes.getD t 0) + W block t
  let T₂ := (rotr s.a 2 ^^^ rotr s.a 13 ^^^ rotr s.a 22) + Maj
  ⟨T₁ + T₂, s.a, s.b, s.c, s.d + T₁, s.e, s.f, s.g⟩

def hashBlocks (m : List Byte) : ℕ → Words
  | 0 =>
    let root i := rootWord 2 (primes.getD i 0)
    ⟨root 0, root 1, root 2, root 3, root 4, root 5, root 6, root 7⟩
  | n + 1 =>
    let block := (m.drop (64 * n)).take 64
    (hashBlocks m n).add ((range 64).foldl (hashRound block) (hashBlocks m n))

/-- As many zeros as make the length 56 bytes modulo 64, and the length in bits. -/
def pad (m : List Byte) : List Byte :=
  m ++ [0x80] ++ replicate ((119 - m.length % 64) % 64) 0 ++ putBe64 (8 * m.length)

def sha256 (m : List Byte) : List Byte :=
  (hashBlocks (pad m) ((pad m).length / 64)).bytes

/-! ## The compression function -/

theorem k_eq : ∀ i ∈ range 64, k.getD i 0 = rootWord 3 (primes.getD i 0) := by
  decide +kernel

theorem init_state (m : List Byte) : sha256Init.state = hashBlocks m 0 := by
  rw [hashBlocks]
  decide +kernel

theorem ch_eq : ch x y z = (x &&& y) ^^^ (~~~x &&& z) := by
  refine UInt32.toBitVec_inj.mp (BitVec.eq_of_getLsbD_eq fun i small => ?_)
  simp only [ch, UInt32.toBitVec_xor, UInt32.toBitVec_and, UInt32.toBitVec_not, BitVec.getLsbD_xor,
    BitVec.getLsbD_and, BitVec.getLsbD_not, small, decide_true]
  cases x.toBitVec.getLsbD i <;> cases y.toBitVec.getLsbD i <;> simp

theorem maj_eq : maj x y z = (x &&& y) ^^^ (x &&& z) ^^^ (y &&& z) := by
  refine UInt32.toBitVec_inj.mp (BitVec.eq_of_getLsbD_eq fun i small => ?_)
  simp only [maj, UInt32.toBitVec_xor, UInt32.toBitVec_and, UInt32.toBitVec_or, BitVec.getLsbD_xor,
    BitVec.getLsbD_and, BitVec.getLsbD_or]
  cases x.toBitVec.getLsbD i <;> cases y.toBitVec.getLsbD i <;> simp

theorem expand_eq : expand buf = (range 64).map (W buf) := by
  have rounds (n : ℕ) : (range' 16 n).foldl (fun w i => w ++ [gamma1 (w.getD (i - 2) 0) +
      w.getD (i - 7) 0 + gamma0 (w.getD (i - 15) 0) + w.getD (i - 16) 0])
      ((range 16).map fun i => getBe32 buf (4 * i)) = (range (16 + n)).map (W buf) := by
    induction n with
    | zero =>
      refine map_congr_left fun i inside => ?_
      rw [W, if_pos (mem_range.mp inside)]
    | succ n ih =>
      have word {j : ℕ} (below : j < 16 + n) :
          ((range (16 + n)).map (W buf)).getD j 0 = W buf j := by
        simp [below]
      rw [range'_concat, foldl_append, ih, foldl_cons, foldl_nil, Nat.one_mul, word (by omega),
        word (by omega), word (by omega), word (by omega), ← Nat.add_assoc, range_succ, map_append,
        map_singleton, W.eq_def buf (16 + n), if_neg (by omega)]
      rfl
  exact rounds 48

theorem sha256Compress_eq (s : Words) (buf : List Byte) :
    sha256Compress s buf = s.add ((range 64).foldl (hashRound buf) s) := by
  have rounds : (range 64).foldl (compressRound (expand buf)) s =
      (range 64).foldl (hashRound buf) s := by
    refine foldl_ext _ _ _ fun s i inside => ?_
    have word : (expand buf).getD i 0 = W buf i := by
      simp [expand_eq, mem_range.mp inside]
    rw [compressRound, hashRound, ch_eq, maj_eq, k_eq i inside, word]
    rfl
  rw [sha256Compress, rounds]

section Text

variable {m chunk : List Byte} {n : ℕ}

theorem hashBlocks_append (whole : 64 * n ≤ m.length) :
    hashBlocks (m ++ chunk) n = hashBlocks m n := by
  induction n with
  | zero => rfl
  | succ n ih =>
    rw [hashBlocks, hashBlocks, ih (by omega), drop_append_of_le_length (by omega),
      take_append_of_le_length (by rw [length_drop]; omega)]

theorem hashBlocks_succ (whole : 64 * n ≤ m.length) :
    hashBlocks (m ++ chunk) (n + 1) =
      sha256Compress (hashBlocks m n) ((m.drop (64 * n) ++ chunk).take 64) := by
  rw [hashBlocks, hashBlocks_append whole, drop_append_of_le_length whole, sha256Compress_eq]

theorem length_tail (m : List Byte) : (m.drop (64 * (m.length / 64))).length = m.length % 64 := by
  rw [length_drop]
  omega

theorem length_pad : (pad m).length = m.length + 1 + (119 - m.length % 64) % 64 + 8 := by
  simp only [pad, length_append, length_replicate]
  rfl

section

variable {buf : ℕ → Byte} {cells : List Byte} (holds : Holds buf 0 cells)
  (length : n = cells.length)
include holds length

theorem holds_extend (more : List Byte) : Holds (paste buf n more) 0 (cells ++ more) := by
  subst length
  refine holds_append.mpr ⟨holds.paste (.inl (by omega)), ?_⟩
  rw [Nat.zero_add]
  exact holds_paste ..

theorem closeBlock_eq (short : n ≤ 56) (state : Words) (bits : ℕ) : closeBlock state buf n bits =
      sha256Compress state (cells ++ (replicate (56 - n) 0 ++ putBe64 bits)) := by
  have zeros := holds_extend holds length (replicate (56 - n) 0)
  have size : 56 = (cells ++ replicate (56 - n) 0).length := by
    rw [length_append, length_replicate]
    omega
  have all := holds_extend zeros size (putBe64 bits)
  rw [closeBlock, all.window_eq (by rw [length_append, ← size]; rfl), append_assoc]

end

/-! ## The buffer -/

/-- What the state is once the bytes of `m` have been absorbed. -/
structure Absorbed (m : List Byte) (md : Sha256State) : Prop where
  length : md.length = 512 * (m.length / 64)
  curlen : md.curlen = m.length % 64
  state : md.state = hashBlocks m (m.length / 64)
  buf : Holds md.buf 0 (m.drop (64 * (m.length / 64)))

variable {md : Sha256State} {input : List Byte} (done : Absorbed m md)
include done

theorem Absorbed.block (size : (m ++ chunk).length = 64 * (m.length / 64 + 1)) (buf : ℕ → Byte) :
    Absorbed (m ++ chunk)
      ⟨md.length + 512, sha256Compress md.state (m.drop (64 * (m.length / 64)) ++ chunk), 0,
        buf⟩ := by
  have blocks : (m ++ chunk).length / 64 = m.length / 64 + 1 := by omega
  have block : ((m.drop (64 * (m.length / 64)) ++ chunk).take 64) =
      m.drop (64 * (m.length / 64)) ++ chunk := by
    refine take_of_length_le ?_
    rw [length_append] at size ⊢
    rw [length_drop]
    omega
  refine ⟨?_, ?_, ?_, ?_⟩
  · rw [blocks, done.length]
    ring
  · dsimp only
    omega
  · rw [blocks, hashBlocks_succ (by omega), block, done.state]
  · rw [blocks, ← size, drop_length]
    trivial

theorem Absorbed.absorb (some_left : input ≠ []) (fits : 8 * (m ++ input).length < 2 ^ 64) :
    ∃ chunk rest md', input = chunk ++ rest ∧ chunk ≠ [] ∧
      absorb md input = some (md', rest) ∧ Absorbed (m ++ chunk) md' := by
  have positive := length_pos_iff.mpr some_left
  have tail := length_tail m
  have length := done.length
  have curlen := done.curlen
  rw [length_append] at fits
  rw [Sha256.absorb]
  split
  next direct =>
    have size : (m ++ input.take 64).length = 64 * (m.length / 64 + 1) := by
      rw [length_append, length_take]
      omega
    have next := done.block size md.buf
    rw [length_eq_zero_iff.mp (show (m.drop (64 * (m.length / 64))).length = 0 by omega),
      nil_append, ← direct.1] at next
    refine ⟨_, _, _, (take_append_drop 64 input).symm, ?_, ?_, next⟩
    · rw [ne_eq, take_eq_nil_iff]
      simp [some_left]
    · rw [addLength, if_pos (by dsimp only; omega)]
      rfl
  next buffered =>
    set n := min input.length (64 - md.curlen) with n_eq
    have held : Holds (paste md.buf md.curlen (input.take n)) 0
        (m.drop (64 * (m.length / 64)) ++ input.take n) :=
      holds_extend done.buf (curlen.trans tail.symm) _
    have size : (m ++ input.take n).length = m.length + n := by
      rw [length_append, length_take]
      omega
    have some_taken : input.take n ≠ [] := by
      rw [ne_eq, take_eq_nil_iff]
      simp only [some_left, or_false]
      omega
    dsimp only
    split
    next full =>
      have next := done.block (size.trans (by omega)) (paste md.buf md.curlen (input.take n))
      refine ⟨_, _, _, (take_append_drop n input).symm, some_taken, ?_, next⟩
      rw [addLength, if_pos (by dsimp only; omega), held.window_eq (by
        rw [length_append, tail, length_take]
        omega)]
      rfl
    next open_ =>
      have blocks : (m ++ input.take n).length / 64 = m.length / 64 := by omega
      refine ⟨_, _, _, (take_append_drop n input).symm, some_taken, rfl, ?_, ?_, ?_, ?_⟩
      · rw [blocks]
        exact length
      · dsimp only
        omega
      · rw [blocks, hashBlocks_append (by omega)]
        exact done.state
      · rw [blocks, drop_append_of_le_length (by omega)]
        exact held

theorem Absorbed.processLoop {fuel : ℕ} (enough : input.length ≤ fuel)
    (fits : 8 * (m ++ input).length < 2 ^ 64) :
    ∃ md', Sha256.processLoop fuel md input = some md' ∧ Absorbed (m ++ input) md' := by
  induction fuel generalizing m md input with
  | zero =>
    obtain rfl := length_eq_zero_iff.mp (Nat.le_zero.mp enough)
    exact ⟨md, rfl, by rwa [append_nil]⟩
  | succ fuel ih =>
    by_cases empty : input = []
    · subst empty
      exact ⟨md, rfl, by rwa [append_nil]⟩
    obtain ⟨chunk, rest, md', rfl, some_taken, absorbed, done'⟩ := done.absorb empty fits
    have positive := length_pos_iff.mpr some_taken
    rw [length_append] at enough
    rw [Sha256.processLoop, if_neg empty, absorbed, ← append_assoc]
    exact ih done' (show rest.length ≤ fuel by omega) (by rwa [append_assoc])

theorem Absorbed.process (fits : 8 * (m ++ input).length < 2 ^ 64) :
    ∃ md', sha256ProcessInner md input = some md' ∧ Absorbed (m ++ input) md' := by
  have small := done.curlen
  rw [sha256ProcessInner, if_neg (by omega)]
  exact done.processLoop le_rfl fits

theorem Absorbed.finish (fits : 8 * m.length < 2 ^ 64) :
    sha256DoneInner md = some (sha256 m) := by
  have tail := length_tail m
  have length := done.length
  have curlen := done.curlen
  have held := holds_extend done.buf (curlen.trans tail.symm) [0x80]
  have bits : md.length + md.curlen * 8 = 8 * m.length := by omega
  have size : md.curlen + 1 = (m.drop (64 * (m.length / 64)) ++ [0x80]).length := by
    rw [length_append, tail, curlen]
    rfl
  have eight : (putBe64 (8 * m.length)).length = 8 := rfl
  rw [sha256DoneInner, if_neg (by omega), addLength, if_pos (by omega), Option.map_some]
  dsimp only
  rw [bits, sha256]
  congr 2
  split
  next two =>
    -- the length has no room behind the `0x80`
    have zeros : (119 - m.length % 64) % 64 = (64 - (md.curlen + 1)) + 56 := by omega
    set fill := replicate (64 - (md.curlen + 1)) (0 : Byte) with fills
    have padded : pad m = (m ++ ([0x80] ++ fill)) ++
        (replicate 56 0 ++ putBe64 (8 * m.length)) := by
      simp only [pad, zeros, replicate_add, fills, append_assoc]
    have count : fill.length = 64 - (md.curlen + 1) := length_replicate
    have first : (m ++ ([0x80] ++ fill)).length = 64 * (m.length / 64 + 1) := by
      rw [length_append, length_append, length_singleton]
      omega
    have second : ((m ++ ([0x80] ++ fill)) ++ (replicate 56 0 ++ putBe64 (8 * m.length))).length =
        64 * ((m ++ ([0x80] ++ fill)).length / 64 + 1) := by
      rw [padded.symm.trans rfl, length_pad]
      omega
    have full := holds_extend held size fill
    have last := ((done.block first md.buf).block second md.buf).state
    have gone : (m ++ ([0x80] ++ fill)).drop (64 * ((m ++ ([0x80] ++ fill)).length / 64)) = [] :=
      drop_eq_nil_of_le (by omega)
    rw [gone] at last
    have none : Holds (paste (paste md.buf md.curlen [0x80]) (md.curlen + 1) fill) 0 [] := trivial
    rw [closeBlock_eq none (length_nil).symm (by omega), padded, ← last, full.window_eq
      (by rw [length_append, ← size]; omega), append_assoc]
  next one =>
    have zeros : (119 - m.length % 64) % 64 = 56 - (md.curlen + 1) := by omega
    have padded : pad m = m ++ ([0x80] ++ (replicate (56 - (md.curlen + 1)) 0 ++
        putBe64 (8 * m.length))) := by
      simp only [pad, zeros, append_assoc]
    have last := (done.block (padded ▸ length_pad.trans (by omega)) md.buf).state
    rw [closeBlock_eq held size (by omega), padded, ← last, append_assoc]

end Text

/-- The strings are absorbed one after the other, wherever they are cut. -/
theorem Absorbed.parts {m : List Byte} {md : Sha256State} (done : Absorbed m md)
    (parts : List (List Byte)) (fits : 8 * (m ++ parts.flatten).length < 2 ^ 64) :
    (parts.foldlM sha256ProcessInner md).bind sha256DoneInner =
      some (sha256 (m ++ parts.flatten)) := by
  induction parts generalizing m md with
  | nil =>
    rw [flatten_nil, append_nil] at fits ⊢
    exact done.finish fits
  | cons part parts ih =>
    rw [flatten_cons, ← append_assoc] at fits ⊢
    have first : 8 * (m ++ part).length < 2 ^ 64 := by
      rw [length_append] at fits
      omega
    obtain ⟨md', processed, done'⟩ := done.process first
    rw [foldlM_cons, processed]
    exact ih done' fits

theorem sha256VectorTyped_eq {parts : List (List Byte)} {m : List Byte} (whole : parts.flatten = m)
    (short : m.length < 2 ^ 61) : sha256VectorTyped parts = some (sha256 m) := by
  have start : Absorbed [] sha256Init := ⟨rfl, rfl, init_state _, trivial⟩
  subst whole
  exact start.parts parts (by rw [nil_append]; omega)

/-- For every list of byte strings of less than `2 ^ 61` bytes, the digest of FIPS 180-4 of their
concatenation. -/
theorem sha256_vector_digest (parts : List (List Byte)) (short : parts.flatten.length < 2 ^ 61) :
    sha256VectorTyped parts = some (sha256 parts.flatten) :=
  sha256VectorTyped_eq rfl short

theorem sha256_vector_digest_abc :
    sha256VectorTyped [[0x61], [0x62, 0x63]] = some (sha256 [0x61, 0x62, 0x63]) :=
  sha256_vector_digest [[0x61], [0x62, 0x63]] (by decide)

end Rtl88x2bu.Crypto.Sha256
