import Rtl88x2bu.Lib.Stream
import Rtl88x2bu.Crypto.Header

/-!
# ARCFOUR and the ICV

`arcfour_init`, `arcfour_encrypt` and `getcrc32` of `rust/rtw_security.rs`, and the bodies that WEP
and TKIP share. A fragment is not shorter than its header, IV and ICV.
-/

namespace Rtl88x2bu.Crypto

open List hiding Vector

variable (src : List Byte) (rc4key : List Byte → List Byte)

/-- `arc4context`; `x` and `y` are masked to eight bits wherever they are written. -/
structure Arc4Context where
  x : Byte
  y : Byte
  state : Vector Byte 256

variable (ctx : Arc4Context)

def stateAt (state : Vector Byte 256) (i : Byte) : Byte :=
  state.get ⟨i.toNat, i.toNat_lt⟩

def setState (state : Vector Byte 256) (i v : Byte) : Vector Byte 256 :=
  state.set i.toNat v i.toNat_lt

def arcfourInitStep (key : List Byte) (keyLen : ℕ) (s : Vector Byte 256 × Byte × ℕ)
    (counter : ℕ) : Vector Byte 256 × Byte × ℕ :=
  let (state, stateindex, keyindex) := s
  let t := stateAt state (UInt8.ofNat counter)
  let stateindex := stateindex + byteAt key keyindex + t
  let u := stateAt state stateindex
  (setState (setState state stateindex t) (UInt8.ofNat counter) u, stateindex,
    if keyindex + 1 ≥ keyLen then 0 else keyindex + 1)

def arcfourInit (key : List Byte) (keyLen : ℕ) : Arc4Context :=
  let start : Vector Byte 256 := ⟨((List.range 256).map UInt8.ofNat).toArray, by simp⟩
  ⟨0, 0, ((List.range 256).foldl (arcfourInitStep key (max keyLen 1)) (start, 0, 0)).1⟩

def arcfourByte : Byte × Arc4Context :=
  let x := ctx.x + 1
  let sx := stateAt ctx.state x
  let y := sx + ctx.y
  let sy := stateAt ctx.state y
  let state := setState (setState ctx.state y sx) x sy
  (stateAt state (sx + sy), ⟨x, y, state⟩)

def arcfourEncrypt : List Byte × Arc4Context :=
  Stream.crypt (· ^^^ ·) arcfourByte src ctx

def crc32ReverseBit (data : Byte) : Byte :=
  let bit (shifted mask : Byte) : Byte := shifted &&& mask
  bit (data <<< 7) 0x80 ||| bit (data <<< 5) 0x40 ||| bit (data <<< 3) 0x20 |||
    bit (data <<< 1) 0x10 ||| bit (data >>> 1) 0x08 ||| bit (data >>> 3) 0x04 |||
    bit (data >>> 5) 0x02 ||| bit (data >>> 7) 0x01

/-- The bytes of a number, lowest first: what `cpu_to_le32` and `to_ne_bytes` give together. -/
def le32Bytes (v : UInt32) : List Byte :=
  [v.toUInt8, (v >>> 8).toUInt8, (v >>> 16).toUInt8, (v >>> 24).toUInt8]

/-- The entry of `CRC32_TABLE` for a byte, as `crc32_init_inner` computes it on a host of either
byte order. -/
def crc32Entry (i : Byte) : UInt32 :=
  let shift (c : UInt32) : UInt32 :=
    if c &&& 0x80000000 ≠ 0 then (c <<< 1) ^^^ 0x04c11db7 else c <<< 1
  let c := shift^[8] ((crc32ReverseBit i).toUInt32 <<< 24)
  let reversed (off : UInt32) : UInt32 := (crc32ReverseBit (c >>> off).toUInt8).toUInt32
  reversed 24 ||| (reversed 16 <<< 8) ||| (reversed 8 <<< 16) ||| (reversed 0 <<< 24)

def getcrc32 (buf : List Byte) : UInt32 :=
  if buf = [] then 0
  else
    ~~~ buf.foldl
      (fun crc byte => crc32Entry (crc ^^^ byte.toUInt32).toUInt8 ^^^ (crc >>> 8)) 0xffffffff

def writeAt (mem : List Byte) (off : ℕ) (bytes : List Byte) : List Byte :=
  mem.take off ++ bytes ++ mem.drop (off + bytes.length)

structure FragAttrib where
  nrFrags : ℕ
  hdrlen : ℕ
  ivLen : ℕ
  icvLen : ℕ
  lastTxcmdsz : ℕ

/-- The body of the loop of `wep_encrypt_inner` and of `tkip_encrypt_inner`. -/
def encryptFrag (attrib : FragAttrib) (mem : List Byte) (pos length : ℕ) : List Byte :=
  let key := rc4key (mem.drop (pos + attrib.hdrlen))
  let payload := pos + attrib.hdrlen + attrib.ivLen
  let text := slice mem payload length
  let first := arcfourEncrypt text (arcfourInit key key.length)
  let second := arcfourEncrypt (le32Bytes (getcrc32 text)) first.2
  writeAt (writeAt mem payload first.1) (payload + length) second.1

def rnd4 (ptr : ℕ) : ℕ :=
  (ptr / 4 + if ptr % 4 = 0 then 0 else 1) * 4

/-- The loop over the `n` fragments left. The next one starts at an address that is a multiple of
four. -/
def encryptFrags (rc4key : List Byte → List Byte) (attrib : FragAttrib) (fragLen base : ℕ) :
    ℕ → ℕ → List Byte → List Byte
  | 0, _, mem => mem
  | n + 1, pos, mem =>
    let size := if n = 0 then attrib.lastTxcmdsz else fragLen
    let length := size - attrib.hdrlen - attrib.ivLen - attrib.icvLen
    let pos' := if n = 0 then pos else rnd4 (base + pos + fragLen) - base
    encryptFrags rc4key attrib fragLen base n pos' (encryptFrag rc4key attrib mem pos length)

def decryptFrame (hdrlen ivLen : ℕ) (mem : List Byte) (frameLen : ℕ) :
    Option (List Byte × List Byte) :=
  if frameLen < hdrlen + ivLen + 4 then none
  else
    let length := frameLen - hdrlen - ivLen
    let key := rc4key (mem.drop hdrlen)
    let payload := hdrlen + ivLen
    let text := (arcfourEncrypt (slice mem payload length) (arcfourInit key key.length)).1
    some (writeAt mem payload text, le32Bytes (getcrc32 (text.take (length - 4))))

section

variable {rc4key : List Byte → List Byte}

@[simp] theorem length_arcfourEncrypt : (arcfourEncrypt src ctx).1.length = src.length :=
  Stream.length_crypt src ctx

theorem arcfourEncrypt_append (front back : List Byte) (ctx : Arc4Context) :
    (arcfourEncrypt (front ++ back) ctx).1 =
      (arcfourEncrypt front ctx).1 ++ (arcfourEncrypt back (arcfourEncrypt front ctx).2).1 :=
  congrArg Prod.fst (Stream.crypt_append front back ctx)

theorem arcfourEncrypt_arcfourEncrypt :
    (arcfourEncrypt (arcfourEncrypt src ctx).1 ctx).1 = src := by
  have cancel (x key : Byte) : x ^^^ key ^^^ key = x := by
    rw [UInt8.xor_assoc, UInt8.xor_self, UInt8.xor_zero]
  exact congrArg Prod.fst (Stream.crypt_crypt cancel src ctx)

theorem writeAt_append (front old rest new : List Byte) (same : new.length = old.length) :
    writeAt (front ++ (old ++ rest)) front.length new = front ++ (new ++ rest) := by
  rw [writeAt, take_left, ← drop_drop, drop_left, same, drop_left,
    append_assoc]

theorem encryptFrag_eq {hdr iv payload icv rest : List Byte} {attrib : FragAttrib}
    (header : attrib.hdrlen = hdr.length) (vector : attrib.ivLen = iv.length)
    (room : icv.length = 4) :
    encryptFrag rc4key attrib (hdr ++ (iv ++ (payload ++ (icv ++ rest)))) 0 payload.length =
      let key := rc4key (iv ++ (payload ++ (icv ++ rest)))
      hdr ++ (iv ++ ((arcfourEncrypt (payload ++ le32Bytes (getcrc32 payload))
        (arcfourInit key key.length)).1 ++ rest)) := by
  have behind : (hdr ++ (iv ++ (payload ++ (icv ++ rest)))).drop (0 + attrib.hdrlen) =
      iv ++ (payload ++ (icv ++ rest)) := by
    rw [Nat.zero_add, header, drop_left]
  have start : 0 + attrib.hdrlen + attrib.ivLen = (hdr ++ iv).length := by
    rw [length_append, Nat.zero_add, header, vector]
  have text : slice (hdr ++ iv ++ (payload ++ (icv ++ rest))) (hdr ++ iv).length payload.length =
      payload :=
    slice_middle _ payload _ rfl
  -- the two writes follow each other: the payload, then the ICV with the context it left
  simp only [encryptFrag, behind, start]
  simp only [← append_assoc hdr iv, text, arcfourEncrypt_append]
  set ctx := arcfourInit (rc4key (iv ++ (payload ++ (icv ++ rest))))
    (rc4key (iv ++ (payload ++ (icv ++ rest)))).length
  rw [writeAt_append (hdr ++ iv) payload _ _ (length_arcfourEncrypt payload ctx),
    ← append_assoc (hdr ++ iv),
    show (hdr ++ iv).length + payload.length =
      (hdr ++ iv ++ (arcfourEncrypt payload ctx).1).length by
        simp only [length_append, length_arcfourEncrypt],
    writeAt_append _ icv rest _ (by rw [length_arcfourEncrypt, room]; rfl)]
  simp only [append_assoc]

theorem encryptFrags_single {hdr iv payload icv rest : List Byte} (fragLen base : ℕ)
    (room : icv.length = 4) :
    encryptFrags rc4key ⟨1, hdr.length, iv.length, 4, hdr.length + iv.length + payload.length + 4⟩
        fragLen base 1 0 (hdr ++ (iv ++ (payload ++ (icv ++ rest)))) =
      let key := rc4key (iv ++ (payload ++ (icv ++ rest)))
      hdr ++ (iv ++ ((arcfourEncrypt (payload ++ le32Bytes (getcrc32 payload))
        (arcfourInit key key.length)).1 ++ rest)) := by
  have length : hdr.length + iv.length + payload.length + 4 - hdr.length - iv.length - 4 =
      payload.length := by omega
  simp only [encryptFrags, if_true, length]
  exact encryptFrag_eq rfl rfl room

theorem decryptFrame_encryptFrags (hdr payload rest : List Byte) {iv icv : List Byte}
    (fragLen base : ℕ) (room : icv.length = 4)
    (ivOnly : ∀ rest, rc4key (iv ++ rest) = rc4key iv) :
    decryptFrame rc4key hdr.length iv.length
        (encryptFrags rc4key
          ⟨1, hdr.length, iv.length, 4, hdr.length + iv.length + payload.length + 4⟩
          fragLen base 1 0
          (hdr ++ (iv ++ (payload ++ (icv ++ rest)))))
        (hdr.length + iv.length + payload.length + 4) =
      some (hdr ++ (iv ++ (payload ++ (le32Bytes (getcrc32 payload) ++ rest))),
        le32Bytes (getcrc32 payload)) := by
  -- of the CRC only its length matters, so it is not unfolded
  obtain ⟨crc, crc_eq⟩ : ∃ crc, le32Bytes (getcrc32 payload) = crc := ⟨_, rfl⟩
  have crcLen : crc.length = 4 := by
    rw [← crc_eq]
    rfl
  rw [encryptFrags_single fragLen base room, crc_eq]
  obtain ⟨key, key_eq⟩ : ∃ key, rc4key (iv ++ (payload ++ (icv ++ rest))) = key := ⟨_, rfl⟩
  obtain ⟨text, text_eq⟩ : ∃ text,
    (arcfourEncrypt (payload ++ crc) (arcfourInit key key.length)).1 = text := ⟨_, rfl⟩
  have textLen : text.length = payload.length + 4 := by
    rw [← text_eq, length_arcfourEncrypt, length_append, crcLen]
  have decrypted : (arcfourEncrypt text (arcfourInit key key.length)).1 = payload ++ crc := by
    rw [← text_eq, arcfourEncrypt_arcfourEncrypt]
  have long : ¬ hdr.length + iv.length + payload.length + 4 < hdr.length + iv.length + 4 := by
    omega
  have length : hdr.length + iv.length + payload.length + 4 - hdr.length - iv.length =
      text.length := by omega
  have start : hdr.length + iv.length = (hdr ++ iv).length := length_append.symm
  have received : slice (hdr ++ (iv ++ (text ++ rest))) (hdr ++ iv).length text.length = text := by
    rw [← append_assoc]
    exact slice_middle _ text rest rfl
  -- the receiver reads the IV in front of the ciphertext, the transmitter in front of the payload
  have sameKey : rc4key (iv ++ (text ++ rest)) = key :=
    (ivOnly _).trans ((ivOnly _).symm.trans key_eq)
  have plain : (payload ++ crc).take (text.length - 4) = payload := by
    rw [textLen, Nat.add_sub_cancel, take_left]
  simp only [key_eq, text_eq]
  rw [decryptFrame, if_neg long]
  simp only [length]
  simp only [start, drop_left, sameKey, received, decrypted, plain, crc_eq]
  rw [← append_assoc hdr, writeAt_append _ _ _ _ (by rw [textLen, length_append, crcLen])]
  simp only [append_assoc]

end

end Rtl88x2bu.Crypto
