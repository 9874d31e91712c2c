import Rtl88x2bu.Tx.Coalesce

/-!
# LLC headers

`recv_llc_parse` (`rust/rtw_recv.rs`) decides whether the LLC header of an MSDU is taken off, and
`rtw_put_snap` writes one.
-/

namespace Rtl88x2bu.Rx

variable (hProto : BitVec 16)

inductive LlcHdl
  | keep
  | remove
  deriving DecidableEq, Repr

def rfc1042Header : List UInt8 := [0xaa, 0xaa, 0x03, 0x00, 0x00, 0x00]

def bridgeTunnelHeader : List UInt8 := [0xaa, 0xaa, 0x03, 0x00, 0x00, 0xf8]

def snapSize : ℕ := 6

def be16At (bytes : List UInt8) (offset : ℕ) : BitVec 16 :=
  (bytes.getD offset 0).toBitVec ++ (bytes.getD (offset + 1) 0).toBitVec

def putBe16 (n : BitVec 16) : List UInt8 :=
  [UInt8.ofBitVec (n.extractLsb' 8 8), UInt8.ofBitVec (n.extractLsb' 0 8)]

def ethernetFrame (dst src : MacAddr) (etherType : BitVec 16) (payload : List UInt8) : List UInt8 :=
  dst.toList ++ (src.toList ++ (putBe16 etherType ++ payload))

def recvLlcParse (msdu : List UInt8) (msduLen : BitVec 16) : LlcHdl :=
  if msduLen.toNat < 8 then .keep
  else if msdu.take snapSize = rfc1042Header ∧ be16At msdu snapSize ≠ 0x80f3 ∧
      be16At msdu snapSize ≠ 0x8137 ∨ msdu.take snapSize = bridgeTunnelHeader then .remove
  else .keep

@[simp] theorem length_putBe16 (n : BitVec 16) : (putBe16 n).length = 2 := rfl

theorem be16At_putBe16 (front : List UInt8) (n : BitVec 16) (rest : List UInt8) :
    be16At (front ++ (putBe16 n ++ rest)) front.length = n := by
  have high : (front ++ (putBe16 n ++ rest)).getD front.length 0 =
      UInt8.ofBitVec (n.extractLsb' 8 8) := by
    rw [List.getD_append_right _ _ _ _ (Nat.le_refl _), Nat.sub_self]
    rfl
  have low : (front ++ (putBe16 n ++ rest)).getD (front.length + 1) 0 =
      UInt8.ofBitVec (n.extractLsb' 0 8) := by
    rw [List.getD_append_right _ _ _ _ (by omega), Nat.add_sub_cancel_left]
    rfl
  rw [be16At, high, low]
  exact BitVec.extractLsb'_append_extractLsb'_eq_extractLsb' (by decide) |>.trans (by simp)

theorem rtwPutSnap_eq : ∃ oui, Tx.rtwPutSnap hProto = oui ++ putBe16 hProto ∧ oui.length = snapSize
    ∧ (hProto ≠ 0x8137 ∧ hProto ≠ 0x80f3 ∧ oui = rfc1042Header ∨ oui = bridgeTunnelHeader) := by
  rw [Tx.rtwPutSnap]
  split
  · exact ⟨bridgeTunnelHeader, rfl, rfl, .inr rfl⟩
  next other =>
    rw [not_or] at other
    exact ⟨rfc1042Header, rfl, rfl, .inl ⟨other.1, other.2, rfl⟩⟩

theorem recvLlcParse_putSnap (rest : List UInt8) {msduLen : BitVec 16} (long : 8 ≤ msduLen.toNat) :
    recvLlcParse (Tx.rtwPutSnap hProto ++ rest) msduLen = .remove := by
  obtain ⟨oui, written, size, header⟩ := rtwPutSnap_eq hProto
  have front : (Tx.rtwPutSnap hProto ++ rest).take snapSize = oui := by
    rw [written, List.append_assoc, ← size, List.take_left]
  have ethType : be16At (Tx.rtwPutSnap hProto ++ rest) snapSize = hProto := by
    rw [written, List.append_assoc, ← size, be16At_putBe16]
  rw [recvLlcParse, if_neg (Nat.not_lt.mpr long), front, ethType, if_pos]
  rcases header with ⟨ipx, aarp, rfc1042⟩ | bridge
  · exact .inl ⟨rfc1042, aarp, ipx⟩
  · exact .inr bridge

theorem drop_putSnap (rest : List UInt8) :
    (Tx.rtwPutSnap hProto ++ rest).drop snapSize = putBe16 hProto ++ rest := by
  obtain ⟨oui, written, size, -⟩ := rtwPutSnap_eq hProto
  rw [written, List.append_assoc, ← size, List.drop_left]

end Rtl88x2bu.Rx
