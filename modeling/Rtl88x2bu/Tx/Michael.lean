import Rtl88x2bu.Crypto.Header
import Rtl88x2bu.Rx.TkipMic
import Rtl88x2bu.Tx.FragmentLayout

/-!
# The Michael MIC

`rtw_secmicsetkey`, `rtw_secmicappend`, `rtw_secgetmic` and `rtw_seccalctkipmic` of
`rust/rtw_security.rs`, and `xmitframe_addmic` with the bytes that it writes. A key has eight bytes.
-/

namespace Rtl88x2bu.Tx

open List
open Crypto (byteAt slice byteAt_append slice_append)
open Rx (isMcast)

variable (key : List Byte)

structure MicData where
  k0 : UInt32
  k1 : UInt32
  l : UInt32
  r : UInt32
  m : UInt32 := 0
  nBytesInM : ℕ := 0

variable (d : MicData)

def rol32 (a n : UInt32) : UInt32 :=
  a <<< n ||| a >>> (32 - n)

def secmicgetuint32 (p : List Byte) (off : ℕ) : UInt32 :=
  (List.range 4).foldl (fun res i => res ||| (byteAt p (off + i)).toUInt32 <<< (8 * .ofNat i)) 0

def secmicputuint32 (val : UInt32) : List Byte :=
  (List.range 4).map fun i => (val >>> (8 * .ofNat i)).toUInt8

def rtwSecmicsetkey : MicData :=
  let k0 := secmicgetuint32 key 0
  let k1 := secmicgetuint32 key 4
  { k0, k1, l := k0, r := k1 }

def secmicappendbyte (b : Byte) : MicData :=
  let m := d.m ||| b.toUInt32 <<< (8 * .ofNat d.nBytesInM)
  if d.nBytesInM + 1 ≥ 4 then
    let l := d.l ^^^ m
    let r := d.r ^^^ rol32 l 17
    let l := l + r
    let r := r ^^^ ((l &&& 0xff00ff00) >>> 8 ||| (l &&& 0x00ff00ff) <<< 8)
    let l := l + r
    let r := r ^^^ rol32 l 3
    let l := l + r
    let r := r ^^^ rol32 l (32 - 2)
    { d with l := l + r, r, m := 0, nBytesInM := 0 }
  else { d with m, nBytesInM := d.nBytesInM + 1 }

def rtwSecmicappend (src : List Byte) : MicData :=
  src.foldl secmicappendbyte d

/-- The loop of `rtw_secgetmic`, which makes three rounds at most (`flush_nBytesInM`). -/
def flush : ℕ → MicData → MicData
  | 0, d => d
  | rounds + 1, d => if d.nBytesInM = 0 then d else flush rounds (secmicappendbyte d 0)

def closeMic : MicData :=
  flush 3 (rtwSecmicappend d [0x5a, 0, 0, 0, 0])

def rtwSecgetmic : List Byte :=
  secmicputuint32 (closeMic d).l ++ secmicputuint32 (closeMic d).r

/-- The destination and the source by the ToDS and FromDS bits, then the priority: the branches of
`rtw_seccalctkipmic`, and those of `xmitframe_addmic`. -/
def micHeader (header : List Byte) (priority : BitVec 8) : MicData :=
  let d :=
    if byteAt header 1 &&& 1 ≠ 0 then
      let d := rtwSecmicappend d (slice header 16 6)
      if byteAt header 1 &&& 2 ≠ 0 then rtwSecmicappend d (slice header 24 6)
      else rtwSecmicappend d (slice header 10 6)
    else
      let d := rtwSecmicappend d (slice header 4 6)
      if byteAt header 1 &&& 2 ≠ 0 then rtwSecmicappend d (slice header 16 6)
      else rtwSecmicappend d (slice header 10 6)
  rtwSecmicappend d [⟨priority⟩, 0, 0, 0]

def rtwSeccalctkipmic (header data : List Byte) (pri : BitVec 8) : List Byte :=
  rtwSecgetmic (rtwSecmicappend (micHeader (rtwSecmicsetkey key) header pri) data)

/-- `xmitframe_addmic` on the memory `mem`: `none` for a null key, and otherwise the memory with the
MIC in it. -/
def xmitframeAddmic (env : XmitEnv) (pattrib : PktAttrib) (count : FragCount) (pframe : ℕ)
    (mem : List Byte) : Option (List Byte) :=
  if pattrib.encrypt = .tkip then
    if micKey env pattrib = Vector.replicate 16 0 then none
    else
      let d := micHeader (rtwSecmicsetkey (micKey env pattrib).toList) (mem.drop pframe)
        (if pattrib.qosEn then pattrib.priority else 0)
      let mic := addmicLoop env.fragLen pattrib count.lastTxcmdsz count.nrFrags pframe
      let d := mic.1.foldl (fun d x => rtwSecmicappend d (slice mem x.start x.len)) d
      some (mem.take mic.2 ++ rtwSecgetmic d ++ mem.drop (mic.2 + 8))
  else some mem

theorem foldl_rtwSecmicappend (pieces : List (List Byte)) (d : MicData) :
    pieces.foldl rtwSecmicappend d = rtwSecmicappend d pieces.flatten :=
  foldl_flatten.symm

theorem secmicappendbyte_nBytesInM (b : Byte) :
    (secmicappendbyte d b).nBytesInM = if d.nBytesInM + 1 ≥ 4 then 0 else d.nBytesInM + 1 := by
  rw [secmicappendbyte]
  split <;> rfl

theorem flush_nBytesInM {d : MicData} (partly : d.nBytesInM < 4) : (flush 3 d).nBytesInM = 0 := by
  obtain here | here | here | here :
      d.nBytesInM = 0 ∨ d.nBytesInM = 1 ∨ d.nBytesInM = 2 ∨ d.nBytesInM = 3 := by omega
  all_goals simp [flush, secmicappendbyte_nBytesInM, here]

theorem closeMic_nBytesInM : (closeMic d).nBytesInM = 0 := by
  apply flush_nBytesInM
  rw [rtwSecmicappend, show ([0x5a, 0, 0, 0, 0] : List Byte) = [0x5a, 0, 0, 0] ++ [0] from rfl,
    foldl_append, foldl_cons, foldl_nil, secmicappendbyte_nBytesInM]
  split <;> omega

/-- The MIC depends on the first 30 bytes of the header only. -/
theorem rtwSeccalctkipmic_append {header : List Byte} (rest data : List Byte) (pri : BitVec 8)
    (long : 30 ≤ header.length) :
    rtwSeccalctkipmic key (header ++ rest) data pri = rtwSeccalctkipmic key header data pri := by
  rw [rtwSeccalctkipmic, micHeader, byteAt_append (by omega), slice_append (by omega),
    slice_append (by omega), slice_append (by omega), slice_append (by omega),
    rtwSeccalctkipmic, micHeader]

/-- A decrypted frame: the bytes that were sent and an ICV, with the key and the priority of the
sender. -/
structure ReceivedMic (env : XmitEnv) (pattrib : PktAttrib) (sent : List Byte) (cr : Rx.Crypto)
    (sec : Rx.SecurityPriv) (stations : Rx.StaTable) (f : Rx.RecvFrame) : Prop where
  mic : cr.seccalctkipmic = rtwSeccalctkipmic
  tkip : f.attrib.encrypt = .tkip
  installed : isMcast f.attrib.ra = true → sec.binstallGrpkey = true
  known : ∃ stainfo, Rx.rtwGetStainfo stations f.attrib.ta = some stainfo ∧
    (if isMcast f.attrib.ra then sec.dot118021XGrprxmickey f.attrib.keyIndex
      else stainfo.dot11tkiprxmickey) = (micKey env pattrib).toList
  bytes : ∃ icv, f.rxData = sent ++ icv ∧ icv.length = f.attrib.icvLen
  hdrlen : f.attrib.hdrlen = pattrib.hdrlen
  ivLen : f.attrib.ivLen = pattrib.ivLen
  priority : f.attrib.priority = if pattrib.qosEn then pattrib.priority else 0
  fields : Rx.MicFields f

section Received

variable {env : XmitEnv} {pattrib : PktAttrib} {cr : Rx.Crypto} {sec : Rx.SecurityPriv}
  {stations : Rx.StaTable} {f : Rx.RecvFrame} {front mic : List Byte}

theorem ReceivedMic.chkmic (received : ReceivedMic env pattrib (front ++ mic) cr sec stations f)
    (eight : mic.length = 8) (long : pattrib.hdrlen + pattrib.ivLen ≤ front.length)
    (header : 30 ≤ front.length)
    (right : mic = rtwSeccalctkipmic (micKey env pattrib).toList front
      (front.drop (pattrib.hdrlen + pattrib.ivLen)) f.attrib.priority) :
    (Rx.recvframeChkmic cr sec stations f).1 = .success := by
  obtain ⟨stainfo, known, key⟩ := received.known
  obtain ⟨icv, bytes, icvLen⟩ := received.bytes
  have datalen : (Rx.micDatalen f).toNat = front.length - (pattrib.hdrlen + pattrib.ivLen) := by
    rw [Rx.micDatalen_toNat received.fields, Rx.micOverhead, bytes, received.hdrlen, received.ivLen,
      length_append, length_append, eight, icvLen, if_pos (by omega)]
    omega
  have payload : (f.rxData.drop (f.attrib.hdrlen + f.attrib.ivLen)).take (Rx.micDatalen f).toNat =
      front.drop (pattrib.hdrlen + pattrib.ivLen) := by
    rw [received.hdrlen, received.ivLen, datalen, bytes, append_assoc,
      drop_append_of_le_length long, take_append_of_le_length (by simp),
      take_of_length_le (by simp)]
  have behind : (f.rxData.drop (Rx.pframemic f)).take 8 = mic := by
    rw [Rx.pframemic, received.hdrlen, received.ivLen, datalen, Nat.add_sub_of_le long, bytes,
      append_assoc, drop_left, ← eight, take_left]
  rw [Rx.recvframeChkmic_known received.tkip known received.installed, payload, behind, key,
    received.mic, bytes, append_assoc, rtwSeccalctkipmic_append _ _ _ _ header, ← right,
    if_pos rfl]

end Received

/-- The MIC of a text does not depend on how it is split; and the MIC that is stored for a frame in
one piece is the one of its header, its payload and its priority, with which `recvframe_chkmic`
accepts the frame. -/
theorem michael_mic_agrees :
    (∀ (key : List Byte) (pieces : List (List Byte)),
      rtwSecgetmic (pieces.foldl rtwSecmicappend (rtwSecmicsetkey key)) =
        rtwSecgetmic (rtwSecmicappend (rtwSecmicsetkey key) pieces.flatten)) ∧
    (∀ d, (closeMic d).nBytesInM = 0) ∧
    ∀ (env : XmitEnv) (pattrib : PktAttrib) (count : FragCount) (pframe : ℕ) (mem : List Byte),
      pattrib.encrypt = .tkip → micKey env pattrib ≠ Vector.replicate 16 0 → count.nrFrags = 1 →
      4 ∣ pframe →
      let start := pframe + pattrib.hdrlen + pattrib.ivLen
      let length := count.lastTxcmdsz - pattrib.hdrlen - pattrib.ivLen - pattrib.swIcvLen
      start + length + 8 ≤ mem.length →
      ∃ mem', xmitframeAddmic env pattrib count pframe mem = some mem' ∧
        slice mem' (start + length) 8 = rtwSeccalctkipmic (micKey env pattrib).toList
          (mem.drop pframe) (slice mem start length)
          (if pattrib.qosEn then pattrib.priority else 0) ∧
        ∀ cr sec stations f,
          ReceivedMic env pattrib (slice mem' pframe (start + length + 8 - pframe)) cr sec stations
            f → (Rx.recvframeChkmic cr sec stations f).1 = .success := by
  refine ⟨fun key pieces => by rw [foldl_rtwSecmicappend], closeMic_nBytesInM, ?_⟩
  intro env pattrib count pframe mem tkip key one aligned start length room
  set pri := if pattrib.qosEn then pattrib.priority else 0
  set mic := rtwSeccalctkipmic (micKey env pattrib).toList (mem.drop pframe)
    (slice mem start length) pri with micEq
  set front := slice mem pframe (start + length - pframe) with frontEq
  have iv : pattrib.ivLen = 8 := by rw [PktAttrib.ivLen, tkip]
  have hdr : 24 ≤ pattrib.hdrlen := by rw [PktAttrib.hdrlen]; split <;> omega
  have inFront : front.length = start + length - pframe := by
    rw [frontEq, slice, length_take, length_drop]
    omega
  have header : mem.drop pframe = front ++ (mem.drop pframe).drop (start + length - pframe) :=
    (take_append_drop _ _).symm
  have payload : slice mem start length = front.drop (pattrib.hdrlen + pattrib.ivLen) := by
    rw [frontEq, slice, slice, drop_take, drop_drop]
    congr 1 <;> grind
  refine ⟨mem.take (start + length) ++ mic ++ mem.drop (start + length + 8), ?_, ?_, ?_⟩
  · rw [xmitframeAddmic, if_pos tkip, if_neg key, one, addmicLoop_one, rnd4_of_dvd aligned]
    rfl
  · have at' : (mem.take (start + length)).length = start + length := by
      rw [length_take]
      omega
    rw [slice, append_assoc, drop_left' at']
    exact take_left' rfl
  · intro cr sec stations f received
    have sent : slice (mem.take (start + length) ++ mic ++ mem.drop (start + length + 8)) pframe
        (start + length + 8 - pframe) = front ++ mic := by
      have eight : mic.length = 8 := rfl
      rw [slice, append_assoc, drop_append_of_le_length (by simp; omega), drop_take,
        ← append_assoc]
      exact take_left' (by rw [length_append, eight]; change front.length + 8 = _; omega)
    rw [sent] at received
    refine received.chkmic rfl (by omega) (by omega) ?_
    rw [received.priority, micEq, header, rtwSeccalctkipmic_append _ _ _ _ (by omega), payload]

def tkipAttrib : PktAttrib :=
  { encrypt := .tkip, dot11tkiptxmickey := Vector.replicate 16 1 }

theorem michael_mic_agrees_one :
    ∃ mem', xmitframeAddmic { fragLen := smallestFragLen } tkipAttrib ⟨1, 33⟩ 0
        (List.replicate 41 0) = some mem' ∧
      (Rx.recvframeChkmic { Rx.plainCrypto with seccalctkipmic := rtwSeccalctkipmic } {}
        (fun _ => some { dot11tkiprxmickey := List.replicate 16 1 })
        { rxData := slice mem' 0 41 ++ [0, 0, 0, 0],
          attrib := { encrypt := .tkip, hdrlen := 24, ivLen := 8, icvLen := 4 } }).1 =
            .success := by
  obtain ⟨mem', stored, -, accepted⟩ := michael_mic_agrees.2.2 { fragLen := smallestFragLen }
    tkipAttrib ⟨1, 33⟩ 0 (List.replicate 41 0) rfl (by decide) rfl (by decide) (by decide)
  have unicast : ¬ isMcast (Vector.replicate 6 0) = true := by decide
  have short : (slice mem' 0 41 ++ [0, 0, 0, 0]).length < 2 ^ 32 := by
    have := length_take_le 41 (mem'.drop 0)
    rw [length_append, slice, length_cons]
    simp only [length_cons, length_nil]
    omega
  exact ⟨mem', stored, accepted _ _ _ _ ⟨rfl, rfl, fun group => absurd group unicast,
    ⟨_, rfl, (if_neg unicast).trans (by decide)⟩, ⟨[0, 0, 0, 0], rfl, rfl⟩, rfl, rfl, rfl,
    ⟨short, (by decide : 24 < 256), (by decide : 8 < 256), (by decide : 4 < 256)⟩⟩⟩

end Rtl88x2bu.Tx
