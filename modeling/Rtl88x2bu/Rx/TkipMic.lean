import Rtl88x2bu.Rx.Decrypt

/-!
# The MIC of TKIP frames

`decryptor` lets a TKIP frame through that has its header, its IV and an ICV; `recvframe_chkmic`
also takes the eight bytes of the MIC from its length, in 32 bits.
-/

namespace Rtl88x2bu.Rx

/-- The ranges of the fields: `len` is an `uint`, and the other lengths are bytes. -/
structure MicFields (f : RecvFrame) : Prop where
  len : f.rxData.length < 2 ^ 32
  hdrlen : f.attrib.hdrlen < 256
  ivLen : f.attrib.ivLen < 256
  icvLen : f.attrib.icvLen < 256

section

variable {cr : Crypto} {sec : SecurityPriv} {stations : StaTable} {f g : RecvFrame}

theorem recvframeChkmic_known {stainfo : StaInfo} (tkip : f.attrib.encrypt = .tkip)
    (known : rtwGetStainfo stations f.attrib.ta = some stainfo)
    (installed : isMcast f.attrib.ra = true → sec.binstallGrpkey = true) :
    recvframeChkmic cr sec stations f =
      (if cr.seccalctkipmic
          (if isMcast f.attrib.ra then sec.dot118021XGrprxmickey f.attrib.keyIndex
            else stainfo.dot11tkiprxmickey) f.rxData
          ((f.rxData.drop (f.attrib.hdrlen + f.attrib.ivLen)).take (micDatalen f).toNat)
          f.attrib.priority = (f.rxData.drop (pframemic f)).take 8 then .success
        else .fail,
      recvframePullTail f 8, decide (pframemic f + 8 ≤ f.rxData.length)) := by
  have keyed : (isMcast f.attrib.ra && !sec.binstallGrpkey) = false := by
    cases group : isMcast f.attrib.ra
    · rfl
    · simp [installed group]
  simp only [recvframeChkmic, tkip, known, keyed, ne_eq, not_true_eq_false, if_false,
    Bool.false_eq_true]

/-- No length is computed for an unknown transmitter and for a group frame without a key. -/
theorem recvframeChkmic_inside (tkip : f.attrib.encrypt = .tkip) :
    (recvframeChkmic cr sec stations f).2.2 = true ↔
      rtwGetStainfo stations f.attrib.ta = none ∨
      (isMcast f.attrib.ra = true ∧ sec.binstallGrpkey = false) ∨
      pframemic f + 8 ≤ f.rxData.length := by
  cases known : rtwGetStainfo stations f.attrib.ta with
  | none => simp [recvframeChkmic, tkip, known]
  | some stainfo =>
    by_cases keyless : isMcast f.attrib.ra = true ∧ sec.binstallGrpkey = false
    · simp [recvframeChkmic, tkip, known, keyless]
    · rw [recvframeChkmic_known tkip known (by simpa using keyless)]
      simp [keyless]

theorem micDatalen_toNat (fields : MicFields f) :
    (micDatalen f).toNat =
      if micOverhead f.attrib ≤ f.rxData.length then f.rxData.length - micOverhead f.attrib
      else 2 ^ 32 + f.rxData.length - micOverhead f.attrib := by
  obtain ⟨len, hdrlen, ivLen, icvLen⟩ := fields
  have overhead : micOverhead f.attrib < 2 ^ 32 := by
    rw [micOverhead]
    omega
  rw [micDatalen, BitVec.toNat_sub, BitVec.toNat_ofNat, BitVec.toNat_ofNat,
    Nat.mod_eq_of_lt len, Nat.mod_eq_of_lt overhead]
  split <;> omega

/-- The MIC lies in the frame exactly if the length has not wrapped around. -/
theorem pframemic_inside_iff (fields : MicFields f) :
    (pframemic f + 8 ≤ f.rxData.length ↔ micOverhead f.attrib ≤ f.rxData.length) ∧
    ((micDatalen f).toNat + micOverhead f.attrib = f.rxData.length ↔
      micOverhead f.attrib ≤ f.rxData.length) := by
  have datalen := micDatalen_toNat fields
  have overhead : micOverhead f.attrib =
      f.attrib.hdrlen + f.attrib.ivLen + f.attrib.icvLen + 8 := rfl
  obtain ⟨len, hdrlen, ivLen, icvLen⟩ := fields
  rw [pframemic]
  split at datalen <;> omega

theorem rtwTkipDecrypt_cases (cr : Crypto) (sec : SecurityPriv) (stations : StaTable)
    (f : RecvFrame) :
    (rtwTkipDecrypt cr sec stations f).1 = .fail ∨
      (rtwTkipDecrypt cr sec stations f).1 = .success ∧
        f.attrib.hdrlen + f.attrib.ivLen + 4 ≤ f.rxData.length ∧
        (rtwTkipDecrypt cr sec stations f).2.attrib = f.attrib := by
  unfold rtwTkipDecrypt
  split
  · exact .inl rfl
  · dsimp only
    split
    · exact .inl rfl
    next long =>
      split
      · exact .inr ⟨rfl, Nat.not_lt.mp long, rfl⟩
      · exact .inl rfl

theorem decryptor_tkip (tkip : f.attrib.encrypt = .tkip)
    (passed : decryptor cr sec stations f = some g) :
    (f.attrib.bdecrypted = false → f.attrib.hdrlen + f.attrib.ivLen + 4 ≤ f.rxData.length) ∧
    g.attrib.encrypt = .tkip ∧ micOverhead g.attrib = micOverhead f.attrib := by
  unfold decryptor at passed
  rw [if_neg (by rw [tkip]; decide)] at passed
  split at passed
  next hardware =>
    -- the hardware has decrypted the frame, of whatever length
    cases passed
    exact ⟨fun software => absurd (hardware.symm.trans software) (by decide), tkip, rfl⟩
  · have decrypted : swDecrypt cr sec stations f.noteKeyIndex =
        rtwTkipDecrypt cr sec stations f.noteKeyIndex := by
      rw [swDecrypt, RecvFrame.noteKeyIndex, tkip]
    rw [decrypted] at passed
    have result := rtwTkipDecrypt_cases cr sec stations f.noteKeyIndex
    obtain ⟨⟨status, h⟩, out_eq⟩ : ∃ out, rtwTkipDecrypt cr sec stations f.noteKeyIndex = out :=
      ⟨_, rfl⟩
    rw [out_eq] at passed result
    obtain rfl | ⟨rfl, long, same⟩ := result
    · cases passed
    · cases passed
      refine ⟨fun _ => long, ?_⟩
      change h.attrib.encrypt = _ ∧ micOverhead h.attrib = _
      rw [show h.attrib = f.noteKeyIndex.attrib from same]
      exact ⟨tkip, rfl⟩

end

/-- For every TKIP frame that `decryptor` lets through, `recvframe_chkmic` stays in the frame
exactly if it compares nothing, or if the frame has eight bytes between its IV and its ICV; and its
length wraps around exactly if there are fewer. All that the software decryption has asked for is
the ICV. -/
theorem tkip_mic_in_frame_iff (cr : Crypto) (sec : SecurityPriv) (stations : StaTable)
    (f g : RecvFrame) (tkip : f.attrib.encrypt = .tkip)
    (passed : decryptor cr sec stations f = some g) (fields : MicFields g) :
    (f.attrib.bdecrypted = false → f.attrib.hdrlen + f.attrib.ivLen + 4 ≤ f.rxData.length) ∧
    ((recvframeChkmic cr sec stations g).2.2 = true ↔
      rtwGetStainfo stations g.attrib.ta = none ∨
      (isMcast g.attrib.ra = true ∧ sec.binstallGrpkey = false) ∨
      f.attrib.hdrlen + f.attrib.ivLen + f.attrib.icvLen + 8 ≤ g.rxData.length) ∧
    ((micDatalen g).toNat + micOverhead g.attrib = g.rxData.length ↔
      f.attrib.hdrlen + f.attrib.ivLen + f.attrib.icvLen + 8 ≤ g.rxData.length) := by
  obtain ⟨guard, still, same⟩ := decryptor_tkip tkip passed
  obtain ⟨inside, unwrapped⟩ := pframemic_inside_iff fields
  rw [recvframeChkmic_inside still, inside, unwrapped, same, micOverhead]
  exact ⟨guard, Iff.rfl, Iff.rfl⟩

def tkipDataFrame (n : ℕ) : RecvFrame :=
  { attrib := { encrypt := .tkip, hdrlen := 24, ivLen := 8, icvLen := 4, privacy := true }
    rxData := List.replicate n 0 }

def plainCrypto : Crypto where
  seccalctkipmic _ _ _ _ := List.replicate 8 0
  arcfour _ data := data
  tkipMix _ _ _ := []
  getcrc32 _ := [0, 0, 0, 0]
  ccmpDecrypt _ _ _ := none
  gcmpDecrypt _ _ _ := none
  omac1Aes _ _ := none
  aesGmac _ _ _ := none

theorem tkip_mic_in_frame_full :
    decryptor plainCrypto {} (fun _ => some {}) (tkipDataFrame 44) =
      some (tkipDataFrame 44).noteKeyIndex.markDecrypted ∧
    (recvframeChkmic plainCrypto {} (fun _ => some {})
      (tkipDataFrame 44).noteKeyIndex.markDecrypted).2.2 = true := by
  have passed : decryptor plainCrypto {} (fun _ => some {}) (tkipDataFrame 44) =
      some (tkipDataFrame 44).noteKeyIndex.markDecrypted := by decide +kernel
  have facts := tkip_mic_in_frame_iff plainCrypto {} (fun _ => some {}) (tkipDataFrame 44) _ rfl
    passed ⟨by decide, by decide, by decide, by decide⟩
  exact ⟨passed, facts.2.1.mpr (.inr (.inr (by decide)))⟩

theorem tkip_mic_length_wraps :
    decryptor plainCrypto {} (fun _ => some {}) (tkipDataFrame 36) =
      some (tkipDataFrame 36).noteKeyIndex.markDecrypted ∧
    micDatalen (tkipDataFrame 36).noteKeyIndex.markDecrypted = 4294967288 ∧
    (recvframeChkmic plainCrypto {} (fun _ => some {})
      (tkipDataFrame 36).noteKeyIndex.markDecrypted).2.2 = false := by
  decide +kernel

end Rtl88x2bu.Rx
