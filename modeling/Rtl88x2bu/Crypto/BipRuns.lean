import Rtl88x2bu.Crypto.Bip

/-!
# Runs of `rtw_bip_verify`

The frames that `validate_mgmt_protect` gives to `rtw_bip_verify` with one key and one IPN. The
check of the length counts the MIC and not the element around it, so in a short frame the element is
looked for in the header.
-/

namespace Rtl88x2bu.Crypto

open List

structure BipFrame where
  pktLen : ℕ
  bytes : List Byte

def mmeOffset (gmcs : BipCipher) : ℕ :=
  if bipMicLen gmcs = 8 then 18 else 26

def MmeInBody (gmcs : BipCipher) (frame : BipFrame) : Prop :=
  24 + mmeOffset gmcs ≤ frame.bytes.length

section

variable (macs : Macs) (gmcs : BipCipher) (key : List Byte) (keyid : UInt16)

def bipReceive (ipn : ℕ) (frame : BipFrame) : BipResult :=
  rtwBipVerify macs gmcs frame.pktLen frame.bytes frame.bytes.length key keyid ipn

def BipResult.cell (ipn : ℕ) : BipResult → ℕ
  | .success new => new
  | _ => ipn

def bipRun (ipn : ℕ) : List BipFrame → List (BipFrame × ℕ) × ℕ
  | [] => ([], ipn)
  | frame :: frames =>
    let result := bipReceive macs gmcs key keyid ipn frame
    let (accepted, last) := bipRun (result.cell ipn) frames
    match result with
    | .success new => ((frame, new) :: accepted, last)
    | _ => (accepted, last)

variable {macs gmcs key keyid} {ipn new : ℕ} {frame : BipFrame}

theorem bipReceive_eq_success_iff :
    bipReceive macs gmcs key keyid ipn frame = .success new ↔
      24 + bipMicLen gmcs ≤ frame.bytes.length ∧
      byteAt frame.bytes (frame.bytes.length - mmeOffset gmcs) = 76 ∧
      getLe16 frame.bytes (frame.bytes.length - mmeOffset gmcs + 2) = keyid ∧
      getLe (slice frame.bytes (frame.bytes.length - mmeOffset gmcs + 4) 6) = new ∧ ipn < new ∧
      ∃ mic, rtwCalculateBipMic macs gmcs frame.bytes frame.pktLen key
          (bipAad frame.bytes ++
            slice frame.bytes 24 (frame.bytes.length - 24 - bipMicLen gmcs) ++
            List.replicate (bipMicLen gmcs) 0) = some mic ∧
        mic.take (bipMicLen gmcs) =
          slice frame.bytes (frame.bytes.length - bipMicLen gmcs) (bipMicLen gmcs) := by
  have offset : (if bipMicLen gmcs = 8 then 18 else 26) = mmeOffset gmcs := rfl
  simp only [bipReceive, rtwBipVerify, offset]
  split
  next short => exact iff_of_false (by rintro ⟨⟩) fun accepted => by have := accepted.1; omega
  next long =>
  split
  next missing => exact iff_of_false (by rintro ⟨⟩) fun accepted => missing accepted.2.1
  next element =>
  split
  next other => exact iff_of_false (by rintro ⟨⟩) fun accepted => other accepted.2.2.1
  next keyid_eq =>
  have front : 24 + bipMicLen gmcs ≤ frame.bytes.length ∧
      byteAt frame.bytes (frame.bytes.length - mmeOffset gmcs) = 76 ∧
      getLe16 frame.bytes (frame.bytes.length - mmeOffset gmcs + 2) = keyid :=
    ⟨by omega, not_not.mp element, not_not.mp keyid_eq⟩
  split
  next replayed =>
    refine iff_of_false (by rintro ⟨⟩) ?_
    rintro ⟨-, -, -, received, newer, -⟩
    change getLe (slice frame.bytes (frame.bytes.length - mmeOffset gmcs + 4) 6) ≤ ipn at replayed
    omega
  next newer =>
  split
  next none_eq =>
    refine iff_of_false (by rintro ⟨⟩) ?_
    rintro ⟨-, -, -, -, -, mic, computed, -⟩
    cases none_eq.symm.trans computed
  next mic computed =>
  split
  next same =>
    constructor
    · intro accepted
      cases accepted
      exact ⟨front.1, front.2.1, front.2.2, rfl, Nat.not_le.mp newer, mic, computed, same⟩
    · rintro ⟨-, -, -, rfl, -, -⟩
      rfl
  next differs =>
    refine iff_of_false (by rintro ⟨⟩) ?_
    rintro ⟨-, -, -, -, -, mic', computed', same⟩
    cases computed.symm.trans computed'
    exact differs same

theorem getLe_lt (bytes : List Byte) : getLe bytes < 256 ^ bytes.length := by
  induction bytes with
  | nil => decide
  | cons byte bytes ih =>
    have small := byte.toNat_lt
    rw [getLe, length_cons, Nat.pow_succ]
    omega

theorem bipReceive_bounds (accepted : bipReceive macs gmcs key keyid ipn frame = .success new) :
    ipn < new ∧ new < 2 ^ 48 := by
  obtain ⟨-, -, -, received, newer, -⟩ := bipReceive_eq_success_iff.mp accepted
  have size : (slice frame.bytes (frame.bytes.length - mmeOffset gmcs + 4) 6).length ≤ 6 :=
    length_take_le 6 _
  have small := getLe_lt (slice frame.bytes (frame.bytes.length - mmeOffset gmcs + 4) 6)
  have bound : 256 ^ (slice frame.bytes (frame.bytes.length - mmeOffset gmcs + 4) 6).length ≤
      256 ^ 6 := Nat.pow_le_pow_right (by decide) size
  exact ⟨newer, by omega⟩

theorem bipRun_cons_of_success {frames : List BipFrame}
    (accepted : bipReceive macs gmcs key keyid ipn frame = .success new) :
    bipRun macs gmcs key keyid ipn (frame :: frames) =
      ((frame, new) :: (bipRun macs gmcs key keyid new frames).1,
        (bipRun macs gmcs key keyid new frames).2) := by
  simp only [bipRun, accepted, BipResult.cell]

theorem bipRun_cons_of_refused {frames : List BipFrame}
    (refused : ∀ new, bipReceive macs gmcs key keyid ipn frame ≠ .success new) :
    bipRun macs gmcs key keyid ipn (frame :: frames) = bipRun macs gmcs key keyid ipn frames := by
  cases result : bipReceive macs gmcs key keyid ipn frame with
  | success new => exact absurd result (refused new)
  | handled => simp only [bipRun, result, BipResult.cell]
  | fail => simp only [bipRun, result, BipResult.cell]

theorem bipRun_spec (ipn : ℕ) (frames : List BipFrame) :
    ((bipRun macs gmcs key keyid ipn frames).1.map Prod.snd).Pairwise (· < ·) ∧
    ∀ frame new, (frame, new) ∈ (bipRun macs gmcs key keyid ipn frames).1 →
      ipn < new ∧ new < 2 ^ 48 ∧ frame ∈ frames ∧
        ∃ cell, bipReceive macs gmcs key keyid cell frame = .success new := by
  induction frames generalizing ipn with
  | nil => exact ⟨.nil, nofun⟩
  | cons frame frames ih =>
    by_cases taken : ∃ new, bipReceive macs gmcs key keyid ipn frame = .success new
    · obtain ⟨new, accepted⟩ := taken
      obtain ⟨newer, small⟩ := bipReceive_bounds accepted
      obtain ⟨increasing, each⟩ := ih new
      rw [bipRun_cons_of_success accepted]
      constructor
      · -- the later ones are newer than the cell this frame leaves
        rw [map_cons, pairwise_cons]
        refine ⟨fun later member => ?_, increasing⟩
        obtain ⟨⟨frame', later'⟩, there, rfl⟩ := mem_map.mp member
        exact (each frame' later' there).1
      · intro frame' new' member
        rcases mem_cons.mp member with first | later
        · cases first
          exact ⟨newer, small, mem_cons_self, ipn, accepted⟩
        · obtain ⟨newer', small', among, cell, accepted'⟩ := each frame' new' later
          exact ⟨newer.trans newer', small', mem_cons_of_mem _ among, cell, accepted'⟩
    · obtain ⟨increasing, each⟩ := ih ipn
      rw [bipRun_cons_of_refused fun new accepted => taken ⟨new, accepted⟩]
      refine ⟨increasing, ?_⟩
      intro frame' new' member
      obtain ⟨newer, small, among, cell, accepted⟩ := each frame' new' member
      exact ⟨newer, small, mem_cons_of_mem _ among, cell, accepted⟩

end

def bipFront (n : ℕ) (keyid : UInt16) (ipn : ℕ) : List Byte :=
  List.replicate n 0 ++ (76 :: 0 :: putLe16 keyid ++ (putLe64 ipn).take 6)

section Accepted

variable {macs : Macs} {gmcs : BipCipher} {key : List Byte} {keyid : UInt16} {n ipn : ℕ}

theorem mmeOffset_eq : mmeOffset gmcs = 10 + bipMicLen gmcs := by
  cases gmcs <;> rfl

theorem length_bipFront : (bipFront n keyid ipn).length = n + 10 := by
  rw [bipFront, length_append, length_replicate]
  rfl

theorem bipFront_fields {tag : List Byte} (small : ipn < 2 ^ 48)
    (size : tag.length = bipMicLen gmcs) :
    (bipFront n keyid ipn ++ tag).length = n + mmeOffset gmcs ∧
    byteAt (bipFront n keyid ipn ++ tag) n = 76 ∧
    getLe16 (bipFront n keyid ipn ++ tag) (n + 2) = keyid ∧
    getLe (slice (bipFront n keyid ipn ++ tag) (n + 4) 6) = ipn := by
  have apart : bipFront n keyid ipn ++ tag =
      List.replicate n 0 ++ (76 :: 0 :: putLe16 keyid ++ ((putLe64 ipn).take 6 ++ tag)) := by
    rw [bipFront]
    simp only [append_assoc, cons_append]
  have place : n = (List.replicate n (0 : Byte)).length := length_replicate.symm
  refine ⟨?_, ?_, ?_, ?_⟩
  · rw [length_append, length_bipFront, size, mmeOffset_eq, Nat.add_assoc]
  · rw [apart]
    nth_rewrite 2 [place]
    exact byteAt_right _ _ 0
  · rw [apart]
    nth_rewrite 2 [place]
    rw [getLe16_add]
    exact getLe16_putLe16 keyid (take 6 (putLe64 ipn) ++ tag)
  · rw [apart]
    nth_rewrite 2 [place]
    rw [slice_add]
    exact getLe_putLe64 small

theorem exists_rtwCalculateBipMic (supported : gmcs ≠ .other) (whdr data : List Byte) (len : ℕ) :
    ∃ mic, rtwCalculateBipMic macs gmcs whdr len key data = some mic := by
  cases gmcs with
  | other => exact absurd rfl supported
  | cmac128 => exact ⟨_, rfl⟩
  | cmac256 => exact ⟨_, rfl⟩
  | gmac128 => exact ⟨_, rfl⟩
  | gmac256 => exact ⟨_, rfl⟩

theorem exists_accepted (macs : Macs) (key : List Byte) (keyid : UInt16)
    (supported : gmcs ≠ .other) (long : 14 ≤ n) (small : ipn + 1 < 2 ^ 48) :
    ∃ mic, (bipFront n keyid (ipn + 1) ++ mic).length = n + mmeOffset gmcs ∧
      bipReceive macs gmcs key keyid ipn
        ⟨n + mmeOffset gmcs, bipFront n keyid (ipn + 1) ++ mic⟩ = .success (ipn + 1) := by
  obtain ⟨front, front_eq⟩ : ∃ front, bipFront n keyid (ipn + 1) = front := ⟨_, rfl⟩
  have front_length : front.length = n + 10 := by rw [← front_eq, length_bipFront]
  have header : 24 ≤ front.length := by omega
  have whole : n + mmeOffset gmcs = front.length + bipMicLen gmcs := by
    rw [mmeOffset_eq]
    omega
  -- the MIC does not depend on the bytes at its own place
  obtain ⟨mic, computed⟩ := @exists_rtwCalculateBipMic macs gmcs key supported front
    (bipAad front ++ front.drop 24 ++ List.replicate (bipMicLen gmcs) 0)
    (front.length + bipMicLen gmcs)
  have size : (mic.take (bipMicLen gmcs)).length = bipMicLen gmcs := by
    rw [length_take, length_of_rtwCalculateBipMic computed]
    exact Nat.min_eq_left bipMicLen_le
  obtain ⟨tag, tag_eq⟩ : ∃ tag, mic.take (bipMicLen gmcs) = tag := ⟨_, rfl⟩
  rw [tag_eq] at size
  obtain ⟨total, element, keyid_eq, received⟩ :=
    @bipFront_fields gmcs keyid n (ipn + 1) tag small size
  rw [front_eq] at total element keyid_eq received ⊢
  have body : slice (front ++ tag) 24 ((front ++ tag).length - 24 - bipMicLen gmcs) =
      front.drop 24 := by
    have rest : (front ++ tag).length - 24 - bipMicLen gmcs = (front.drop 24).length := by
      rw [length_drop, total, whole]
      omega
    rw [rest, slice, drop_append_of_le_length header, take_left]
  refine ⟨tag, total, bipReceive_eq_success_iff.mpr ?_⟩
  simp only [body]
  rw [total, Nat.add_sub_cancel]
  refine ⟨by omega, element, keyid_eq, received, Nat.lt_succ_self _, mic, ?_, ?_⟩
  · rw [bipAad_append header, whole, rtwCalculateBipMic_append header, computed]
  · rw [tag_eq, whole, Nat.add_sub_cancel]
    exact (slice_right front tag size).symm

end Accepted

/-- In every run the accepted IPNs grow and have 48 bits, and a call that does not accept leaves the
IPN. The accepted frames of a given length have the element behind their header exactly if the
length has room for it, or is too short for the MIC, or no frame is accepted at all. -/
theorem bip_runs_element_in_body_iff (macs : Macs) (gmcs : BipCipher) (key : List Byte)
    (keyid : UInt16) :
    (∀ ipn frames, ((bipRun macs gmcs key keyid ipn frames).1.map Prod.snd).Pairwise (· < ·) ∧
      ∀ frame new, (frame, new) ∈ (bipRun macs gmcs key keyid ipn frames).1 →
        ipn < new ∧ new < 2 ^ 48) ∧
    (∀ ipn frame, (∀ new, bipReceive macs gmcs key keyid ipn frame ≠ .success new) →
      (bipReceive macs gmcs key keyid ipn frame).cell ipn = ipn) ∧
    ∀ length, (∀ ipn frames frame new,
        (frame, new) ∈ (bipRun macs gmcs key keyid ipn frames).1 →
        frame.bytes.length = length → MmeInBody gmcs frame) ↔
      gmcs = .other ∨ length < 24 + bipMicLen gmcs ∨ 24 + mmeOffset gmcs ≤ length := by
  refine ⟨fun ipn frames => ?_, fun ipn frame failed => ?_, fun length => ?_⟩
  · obtain ⟨increasing, each⟩ := @bipRun_spec macs gmcs key keyid ipn frames
    refine ⟨increasing, fun frame new member => ?_⟩
    obtain ⟨newer, small, -⟩ := each frame new member
    exact ⟨newer, small⟩
  · cases result : bipReceive macs gmcs key keyid ipn frame with
    | success new => exact absurd result (failed new)
    | handled => rfl
    | fail => rfl
  · constructor
    · intro in_body
      by_contra gap
      push Not at gap
      obtain ⟨supported, at_least, below⟩ := gap
      have offset := @mmeOffset_eq gmcs
      obtain ⟨n, rfl⟩ : ∃ n, length = n + mmeOffset gmcs := ⟨length - mmeOffset gmcs, by omega⟩
      obtain ⟨mic, total, accepted⟩ := @exists_accepted gmcs n 0 macs key keyid supported (by omega)
        (by decide)
      have member : ((⟨n + mmeOffset gmcs, bipFront n keyid 1 ++ mic⟩ : BipFrame), 1) ∈
          (bipRun macs gmcs key keyid 0 [⟨n + mmeOffset gmcs, bipFront n keyid 1 ++ mic⟩]).1 := by
        rw [bipRun_cons_of_success accepted]
        exact mem_cons_self
      have inside := in_body 0 _ _ 1 member total
      rw [MmeInBody, total] at inside
      omega
    · rintro reason ipn frames frame new member rfl
      obtain ⟨-, -, -, cell, accepted⟩ := (bipRun_spec ipn frames).2 frame new member
      obtain ⟨at_least, -, -, -, -, mic, computed, -⟩ := bipReceive_eq_success_iff.mp accepted
      rcases reason with rfl | short | room
      · cases computed
      · omega
      · exact room

def xorMacs : Macs where
  omac1Aes _ data := Vector.replicate 16 (data.foldl (· ^^^ ·) 0)
  aes _ _ := Vector.replicate 16 0

theorem element_in_header_accepted :
    bipReceive xorMacs .cmac128 [] 4 0 ⟨40, bipFront 22 4 1 ++ List.replicate 8 5⟩ = .success 1 ∧
      ¬ MmeInBody .cmac128 ⟨40, bipFront 22 4 1 ++ List.replicate 8 5⟩ := by
  refine ⟨by decide +kernel, ?_⟩
  rw [MmeInBody]
  decide

end Rtl88x2bu.Crypto
