import Rtl88x2bu.Crypto.Block

/-!
# Headers of protected frames

What `ccmp_support.rs` and `gcmp_support.rs` read of an 802.11 header. A header is given by the
memory that it starts, since the QoS control is read behind the end of `Ieee80211Hdr`; the first 32
bytes are all that is read.
-/

namespace Rtl88x2bu.Crypto

open List hiding Vector

variable (mem : List Byte) (fc : UInt16)

variable (amsduMode : Byte) (pn : Vector Byte 6) (front back : List Byte)

inductive Endian
  | little
  | big
deriving DecidableEq, Repr

inductive Ret
  | success
  | fail
deriving DecidableEq, Repr

/-- Whether `os_malloc` gives a buffer of so many bytes. It casts the size to an `u32`, so there is
none of `2 ^ 32` bytes or more. -/
abbrev Malloc := ℕ → Bool

def byteAt (i : ℕ) : Byte :=
  mem.getD i 0

def slice (off len : ℕ) : List Byte :=
  (mem.drop off).take len

def getLe16 (i : ℕ) : UInt16 :=
  (byteAt mem i).toUInt16 ||| ((byteAt mem (i + 1)).toUInt16 <<< 8)

def putLe16 (val : UInt16) : List Byte :=
  [(val &&& 0xff).toUInt8, (val >>> 8).toUInt8]

def fcRetry : UInt16 := 0x0800
def fcPwrMgt : UInt16 := 0x1000
def fcMoreData : UInt16 := 0x2000
def fcIsWep : UInt16 := 0x4000
def fcOrder : UInt16 := 0x8000

def hasAddr4 : Bool :=
  fc &&& 0x0300 == 0x0300

def isData : Bool :=
  fc &&& 0x000c == 0x0008

def isMgmt : Bool :=
  fc &&& 0x000c == 0x0000

def isQosData : Bool :=
  isData fc && fc &&& 0x00f0 &&& 0x0080 != 0

def maskedFc : UInt16 :=
  let masked := if isData fc then fc &&& ~~~0x0070 else fc
  let masked := if isQosData fc then masked &&& ~~~fcOrder else masked
  masked &&& ~~~(fcRetry ||| fcPwrMgt ||| fcMoreData)

def qosOffset (addr4 : Bool) : ℕ :=
  if addr4 then 24 + 6 else 24

/-- The AAD of both protocols behind the frame control `fc` that is left; the A-MSDU bit counts only
for `RTW_AMSDU_MODE_SPP`. -/
def headerAad (hdr : List Byte) (fc : UInt16) (addr4 qos : Bool) : List Byte :=
  let control := byteAt hdr (qosOffset addr4) &&& ~~~0x70
  putLe16 fc ++ slice hdr 4 18 ++ putLe16 (getLe16 hdr 22 &&& ~~~0xfff0) ++
    (if addr4 then slice hdr 24 6 else []) ++
    if qos then [if amsduMode ≠ 1 then control &&& ~~~0x80 else control, 0] else []

def noncePn (data : List Byte) : List Byte :=
  [byteAt data 7, byteAt data 6, byteAt data 5, byteAt data 4, byteAt data 1, byteAt data 0]

def pnHeader (keyid : ℤ) : List Byte :=
  [pn[5], pn[4], 0, (0x20 : Byte) ||| (UInt8.ofInt keyid <<< 6), pn[3], pn[2], pn[1],
    getElem pn 0 (Nat.zero_lt_succ 5)]

/-- The start of the encrypted frame, and the plaintext: a packet number may be in the frame
already. -/
def openFrame (hdrlen plen : ℕ) (pn : Option (Vector Byte 6)) (keyid : ℤ) : List Byte × List Byte :=
  match pn with
  | some pn => (mem.take hdrlen ++ pnHeader pn keyid, slice mem hdrlen plen)
  | none => (mem.take (hdrlen + 8), slice mem (hdrlen + 8) plen)

section

variable {mem rest : List Byte} {i off len : ℕ}

theorem byteAt_append (inside : i < mem.length) : byteAt (mem ++ rest) i = byteAt mem i :=
  getD_append mem rest 0 i inside

theorem slice_append (inside : off + len ≤ mem.length) :
    slice (mem ++ rest) off len = slice mem off len := by
  rw [slice, slice, drop_append_of_le_length (by omega),
    take_append_of_le_length (by rw [length_drop]; omega)]

theorem getLe16_append (inside : i + 1 < mem.length) : getLe16 (mem ++ rest) i = getLe16 mem i := by
  rw [getLe16, getLe16, byteAt_append (by omega), byteAt_append inside]

theorem noncePn_append (inside : 8 ≤ mem.length) : noncePn (mem ++ rest) = noncePn mem := by
  rw [noncePn, byteAt_append (by omega), byteAt_append (by omega), byteAt_append (by omega),
    byteAt_append (by omega), byteAt_append (by omega), byteAt_append (by omega), noncePn]

theorem headerAad_append (fc : UInt16) (addr4 qos : Bool) (inside : 32 ≤ mem.length) :
    headerAad amsduMode (mem ++ rest) fc addr4 qos = headerAad amsduMode mem fc addr4 qos := by
  have offset : qosOffset addr4 < mem.length := by
    cases addr4 <;> simp only [qosOffset, if_true, if_false, Bool.false_eq_true] <;> omega
  rw [headerAad, headerAad, byteAt_append offset, slice_append (by omega),
    getLe16_append (by omega), slice_append (by omega)]

theorem length_headerAad_le (fc : UInt16) (addr4 qos : Bool) :
    (headerAad amsduMode mem fc addr4 qos).length ≤ 30 := by
  have addresses : (slice mem 4 18).length ≤ 18 := length_take_le 18 _
  have fourth : (slice mem 24 6).length ≤ 6 := length_take_le 6 _
  cases addr4 <;> cases qos <;>
    simp only [headerAad, length_append, putLe16, length_cons, length_nil, if_true,
      if_false, Bool.false_eq_true] <;> omega

@[simp] theorem length_pnHeader (keyid : ℤ) : (pnHeader pn keyid).length = 8 := rfl

@[simp] theorem noncePn_pnHeader (keyid : ℤ) : noncePn (pnHeader pn keyid) = pn.toList := by
  obtain ⟨⟨bytes⟩, length⟩ := pn
  match bytes, length with
  | [_, _, _, _, _, _], _ => rfl

/-! Taking a frame apart where it was put together. -/

theorem byteAt_right (i : ℕ) : byteAt (front ++ back) (front.length + i) = byteAt back i := by
  rw [byteAt, byteAt, getD_append_right _ _ _ _ (by omega), Nat.add_sub_cancel_left]

theorem getLe16_add (i : ℕ) : getLe16 (front ++ back) (front.length + i) = getLe16 back i := by
  rw [getLe16, byteAt_right, Nat.add_assoc, byteAt_right, ← getLe16]

theorem getLe16_putLe16 (val : UInt16) (rest : List Byte) :
    getLe16 (putLe16 val ++ rest) 0 = val := by
  change (val &&& 0xff).toUInt8.toUInt16 ||| ((val >>> 8).toUInt8.toUInt16 <<< 8) = val
  have small := val.toNat_lt
  have low : (val &&& 0xff).toUInt8.toUInt16.toNat = val.toNat % 256 := by
    have mask : val.toNat &&& 255 = val.toNat % 256 := Nat.and_two_pow_sub_one_eq_mod val.toNat 8
    change (val.toNat &&& 255) % 256 = val.toNat % 256
    rw [mask, Nat.mod_mod]
  have high : ((val >>> 8).toUInt8.toUInt16 <<< 8).toNat = (val.toNat / 256) <<< 8 := by
    simp [Nat.shiftRight_eq_div_pow, Nat.shiftLeft_eq]
    omega
  apply UInt16.toNat_inj.mp
  rw [UInt16.toNat_or, low, high, Nat.or_comm, ← Nat.shiftLeft_add_eq_or_of_lt (by omega),
    Nat.shiftLeft_eq]
  omega

theorem slice_add (i len : ℕ) :
    slice (front ++ back) (front.length + i) len = slice back i len := by
  rw [slice, slice, ← drop_drop, drop_left]

theorem slice_right (mem rest : List Byte) (whole : rest.length = len) :
    slice (mem ++ rest) mem.length len = rest :=
  (slice_add mem rest 0 len).trans (take_of_length_le whole.le)

theorem slice_middle (text rest : List Byte) (at_front : front.length = off) :
    slice (front ++ (text ++ rest)) off text.length = text := by
  subst at_front
  exact (slice_add front (text ++ rest) 0 text.length).trans take_left

end

end Rtl88x2bu.Crypto
