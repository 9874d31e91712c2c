import Rtl88x2bu.Bridge.Contained
import Rtl88x2bu.Bridge.Checksum

/-!
# The broadcast flag of DHCP requests

`dhcp_flag_bcast` adds the new flags to the complement of the old checksum. Modulo `2 ^ 16 - 1` this
takes the new flags out of the checksum, but not the old ones in. A checksum that is absent is
updated as well.
-/

namespace Rtl88x2bu.Bridge

open Tape OnesComplement

variable (data : ℕ → Byte)

/-! ## The function -/

def clientPort : ℕ := 68
def serverPort : ℕ := 67
def broadcastFlag : ℕ := 0x8000
def dhcpMagic : List Byte := [0x63, 0x82, 0x53, 0x63]

def htonsNative : ByteOrder → ℕ → ℕ
  | .little, n => n % 256 * 256 + n / 256
  | .big, n => n

def SkBuff.store16 (skb : SkBuff) (order : ByteOrder) (base n : ℕ) : SkBuff :=
  skb.store base (htons (htonsNative order n))

def udpAt : ℕ :=
  ethHlen + (data ethHlen &&& 0x0f).toNat * 4

def checkAt : ℕ := udpAt data + 6

def flagsAt : ℕ := udpAt data + 8 + 10

def setBroadcast (order : ByteOrder) (skb : SkBuff) (flags check : ℕ) : SkBuff :=
  let skb := skb.store16 order flags
    (native16 order skb.data flags ||| htonsNative order broadcastFlag)
  let skb := (skb.touch check 2).touch flags 2
  let sum := 0xffff - native16 order skb.data check + native16 order skb.data flags
  skb.store16 order check (0xffff - carries sum sum)

def dhcpFlagBcast (env : Env) (priv : Adapter) (skb : SkBuff) : SkBuff :=
  if priv.ethBrExtInfo.dhcpBcstDisable then skb
  else
    let skb := skb.touch (2 * ethAlen) 2
    if be16 skb.data (2 * ethAlen) = ethPIp then
      let skb := skb.touch 23 1
      if skb.data 23 = 17 then
        let skb := skb.touch ethHlen 1
        let udph := udpAt skb.data
        let skb := (skb.touch udph 2).touch (udph + 2) 2
        if be16 skb.data udph = clientPort ∧ be16 skb.data (udph + 2) = serverPort then
          let skb := skb.touch (udph + 8 + 236) 4
          if window skb.data (udph + 8 + 236) 4 = dhcpMagic then
            let skb := skb.touch (flagsAt skb.data) 2
            if native16 env.order skb.data (flagsAt skb.data) &&&
                htonsNative env.order broadcastFlag = 0 then
              setBroadcast env.order skb (flagsAt skb.data) (checkAt skb.data)
            else skb
          else skb
        else skb
      else skb
    else skb

/-! ## Numbers of the host -/

section Native

variable (order : ByteOrder) {n : ℕ}

theorem native16_eq (offset : ℕ) :
    native16 order data offset = htonsNative order (be16 data offset) := by
  have low := (data (offset + 1)).toNat_lt
  cases order with
  | little =>
    simp only [native16, htonsNative, be16]
    omega
  | big => rfl

theorem htonsNative_lt (small : n < 65536) : htonsNative order n < 65536 := by
  cases order with
  | little =>
    simp only [htonsNative]
    omega
  | big => exact small

theorem htonsNative_zero : htonsNative order 0 = 0 := by
  cases order <;> rfl

theorem htonsNative_htonsNative (small : n < 65536) :
    htonsNative order (htonsNative order n) = n := by
  cases order with
  | little =>
    simp only [htonsNative]
    omega
  | big => rfl

theorem htonsNative_eq_zero_iff (small : n < 65536) : htonsNative order n = 0 ↔ n = 0 := by
  constructor
  · intro zero
    rw [← htonsNative_htonsNative order small, zero, htonsNative_zero]
  · rintro rfl
    exact htonsNative_zero order

/-- Modulo `2 ^ 16 - 1`, swapping the bytes is a multiplication, so that one's complement sums can
be taken in either order. -/
theorem htonsNative_modEq (order : ByteOrder) : ∃ scale, ∀ n,
    htonsNative order n ≡ scale * n [MOD 65535] := by
  cases order with
  | little =>
    refine ⟨256, fun n => ?_⟩
    rw [Nat.ModEq, htonsNative]
    omega
  | big =>
    refine ⟨1, fun n => ?_⟩
    rw [htonsNative, Nat.one_mul]

theorem or_eq_add {a b : ℕ} (small : a + b < 65536) (apart : a &&& b = 0) : a ||| b = a + b := by
  have vectors : BitVec.ofNat 16 a &&& BitVec.ofNat 16 b = 0#16 := by
    rw [← BitVec.ofNat_and, apart]
  have sum := congrArg BitVec.toNat (BitVec.add_eq_or_of_and_eq_zero _ _ vectors)
  rw [BitVec.toNat_add, BitVec.toNat_or, BitVec.toNat_ofNat, BitVec.toNat_ofNat,
    Nat.mod_eq_of_lt (show a < 2 ^ 16 by omega), Nat.mod_eq_of_lt (show b < 2 ^ 16 by omega),
    Nat.mod_eq_of_lt (show a + b < 2 ^ 16 by omega)] at sum
  exact sum.symm

theorem and_two_pow_eq_zero_iff (k m : ℕ) : m &&& 2 ^ k = 0 ↔ m / 2 ^ k % 2 = 0 := by
  rw [Nat.and_two_pow, Nat.testBit_eq_decide_div_mod_eq]
  rcases Nat.mod_two_eq_zero_or_one (m / 2 ^ k) with even | odd
  · simp [even]
  · simp [odd]

theorem broadcast_native (small : n < 65536) :
    (htonsNative order n &&& htonsNative order broadcastFlag = 0 ↔ n < 0x8000) ∧
    (n < 0x8000 → htonsNative order n ||| htonsNative order broadcastFlag =
      htonsNative order (n + 0x8000)) := by
  cases order with
  | little =>
    have clear : htonsNative .little n &&& 128 = 0 ↔ htonsNative .little n / 128 % 2 = 0 :=
      and_two_pow_eq_zero_iff 7 (htonsNative .little n)
    have flag : htonsNative .little broadcastFlag = 128 := rfl
    have unset_iff : htonsNative .little n / 128 % 2 = 0 ↔ n < 0x8000 := by
      have half : (n % 256 * 256 + n / 256) / 128 = n % 256 * 2 + n / 256 / 128 := by omega
      rw [htonsNative, half, Nat.div_div_eq_div_mul, Nat.mul_add_mod_self_right]
      omega
    rw [flag]
    refine ⟨clear.trans unset_iff, fun unset => ?_⟩
    have room : htonsNative .little n + 128 = htonsNative .little (n + 0x8000) := by
      simp only [htonsNative]
      omega
    have small' : htonsNative .little n + 128 < 65536 := by
      rw [room]
      exact htonsNative_lt .little (by omega)
    rw [or_eq_add small' (clear.mpr (unset_iff.mpr unset)), room]
  | big =>
    have clear : n &&& 0x8000 = 0 ↔ n / 0x8000 % 2 = 0 := and_two_pow_eq_zero_iff 15 n
    have unset_iff : n / 0x8000 % 2 = 0 ↔ n < 0x8000 := by omega
    refine ⟨clear.trans unset_iff, fun unset => ?_⟩
    change n ||| 0x8000 = n + 0x8000
    exact or_eq_add (by omega) (clear.mpr (unset_iff.mpr unset))

theorem htonsNative_modEq_iff {m : ℕ} (small : m < 65536) (small' : n < 65536) :
    htonsNative order m ≡ htonsNative order n [MOD 65535] ↔ m ≡ n [MOD 65535] := by
  obtain ⟨scale, swap⟩ := htonsNative_modEq order
  constructor
  · intro same
    rw [← htonsNative_htonsNative order small, ← htonsNative_htonsNative order small']
    exact (swap _).trans ((same.mul_left scale).trans (swap _).symm)
  · exact fun same => (swap m).trans ((same.mul_left scale).trans (swap n).symm)

/-- The complement of the sum of the old checksum's complement and the word, in the host's order. -/
def updatedCheck (check word : ℕ) : ℕ :=
  htonsNative order
    (65535 - fold (65535 - htonsNative order check + htonsNative order word))

section

variable {check word : ℕ} (small : check < 65536) (small' : word < 65536)

include small small'

theorem updatedCheck_add_modEq : updatedCheck order check word + word ≡ check [MOD 65535] := by
  obtain ⟨sum, sum_eq⟩ : ∃ sum, 65535 - htonsNative order check + htonsNative order word = sum :=
    ⟨_, rfl⟩
  have check_lt := htonsNative_lt order small
  have folded := fold_mod sum
  have folded_le := fold_le sum
  have complement : 65535 - fold sum + htonsNative order word ≡
      htonsNative order check [MOD 65535] := by
    rw [Nat.ModEq]
    omega
  obtain ⟨scale, swap⟩ := htonsNative_modEq order
  rw [updatedCheck, sum_eq]
  calc htonsNative order (65535 - fold sum) + word
      = htonsNative order (65535 - fold sum) + htonsNative order (htonsNative order word) := by
        rw [htonsNative_htonsNative order small']
    _ ≡ scale * (65535 - fold sum) + scale * htonsNative order word [MOD 65535] :=
        (swap _).add (swap _)
    _ = scale * (65535 - fold sum + htonsNative order word) := (Nat.mul_add _ _ _).symm
    _ ≡ scale * htonsNative order check [MOD 65535] := complement.mul_left scale
    _ ≡ htonsNative order (htonsNative order check) [MOD 65535] := (swap _).symm
    _ = check := htonsNative_htonsNative order small

theorem updatedCheck_eq_zero_iff (some_bit : 0 < word) :
    updatedCheck order check word = 0 ↔ check ≡ word [MOD 65535] := by
  have check_lt := htonsNative_lt order small
  have word_pos : htonsNative order word ≠ 0 := by
    rw [Ne, htonsNative_eq_zero_iff order small']
    omega
  obtain ⟨sum, sum_eq⟩ : ∃ sum, 65535 - htonsNative order check + htonsNative order word = sum :=
    ⟨_, rfl⟩
  have folded_le := fold_le sum
  have ones : 65535 - fold sum = 0 ↔ fold sum = 65535 := by omega
  rw [updatedCheck, sum_eq, htonsNative_eq_zero_iff order (by omega), ones, fold_eq_ones_iff,
    ← htonsNative_modEq_iff order small small', Nat.ModEq]
  omega

end

end Native

/-! ## Requests -/

structure DhcpRequest (data : ℕ → Byte) : Prop where
  protocol : be16 data 12 = ethPIp
  udp : data 23 = 17
  ihl : 5 ≤ (data ethHlen &&& 0x0f).toNat
  source : be16 data (udpAt data) = clientPort
  dest : be16 data (udpAt data + 2) = serverPort
  cookie : window data (udpAt data + 8 + 236) 4 = dhcpMagic
  length : 8 + 240 ≤ be16 data (udpAt data + 4)

def udpCheck : ℕ := be16 data (checkAt data)

def dhcpFlags : ℕ := be16 data (flagsAt data)

def udpSum : ℕ :=
  onesSum (window data 26 8) + 17 + be16 data (udpAt data + 4) +
    onesSum (window data (udpAt data) (be16 data (udpAt data + 4)))

def UdpValid : Prop :=
  udpCheck data ≠ 0 ∧ fold (udpSum data) = 65535

instance (data : ℕ → Byte) : Decidable (UdpValid data) :=
  inferInstanceAs (Decidable (_ ∧ _))

section Requests

variable {env : Env} {priv : Adapter} {skb : SkBuff}

theorem dhcpFlagBcast_data (env : Env) (enabled : priv.ethBrExtInfo.dhcpBcstDisable = false)
    (request : DhcpRequest skb.data) :
    (dhcpFlags skb.data < broadcastFlag → (dhcpFlagBcast env priv skb).data =
      (setBroadcast env.order skb (flagsAt skb.data) (checkAt skb.data)).data) ∧
    (broadcastFlag ≤ dhcpFlags skb.data → (dhcpFlagBcast env priv skb).data = skb.data) := by
  have test := (broadcast_native env.order (be16_lt skb.data (flagsAt skb.data))).1
  have ports : be16 skb.data (udpAt skb.data) = clientPort ∧
      be16 skb.data (udpAt skb.data + 2) = serverPort := ⟨request.source, request.dest⟩
  simp only [dhcpFlagBcast, enabled, Bool.false_eq_true, if_false, touch_data, ethAlen,
    Nat.reduceMul, request.protocol, request.udp, if_true, ports, and_self, request.cookie,
    native16_eq, test]
  constructor
  · intro unset
    rw [if_pos (show be16 skb.data (flagsAt skb.data) < 0x8000 from unset)]
    simp only [setBroadcast, SkBuff.store16, store_data, touch_data]
  · intro set
    rw [if_neg (show ¬ be16 skb.data (flagsAt skb.data) < 0x8000 from Nat.not_lt.mpr set)]
    simp only [touch_data]

theorem setBroadcast_data (order : ByteOrder) {flags check : ℕ} (apart : check + 2 ≤ flags)
    (unset : be16 skb.data flags < 0x8000) :
    ∃ sum, sum < 65536 ∧
      (setBroadcast order skb flags check).data =
        paste (paste skb.data flags (htons (be16 skb.data flags + 0x8000))) check (htons sum) ∧
      sum + (be16 skb.data flags + 0x8000) ≡ be16 skb.data check [MOD 65535] ∧
      (sum = 0 ↔ be16 skb.data check ≡ be16 skb.data flags + 0x8000 [MOD 65535]) := by
  have flags_lt : be16 skb.data flags + 0x8000 < 65536 := by omega
  have check_lt := be16_lt skb.data check
  refine ⟨updatedCheck order (be16 skb.data check) (be16 skb.data flags + 0x8000),
    htonsNative_lt order (by omega), ?_, updatedCheck_add_modEq order check_lt flags_lt,
    updatedCheck_eq_zero_iff order check_lt flags_lt (by omega)⟩
  have set_flag := (broadcast_native order (be16_lt skb.data flags)).2 unset
  simp only [setBroadcast, SkBuff.store16, store_data, touch_data, native16_eq, set_flag,
    htonsNative_htonsNative order flags_lt, be16_paste_htons flags_lt,
    be16_paste_of_le (Or.inl apart), carries_eq_fold (Nat.le_refl _), updatedCheck]

def OthersKept (data' : ℕ → Byte) : Prop :=
  ∀ i, i < checkAt data ∨ checkAt data + 2 ≤ i → i < flagsAt data ∨ flagsAt data + 2 ≤ i →
    data' i = data i

theorem othersKept_paste (flags check : ℕ) : OthersKept data
    (paste (paste data (flagsAt data) (htons flags)) (checkAt data) (htons check)) := by
  intro i off_check off_flags
  have outer : paste (paste data (flagsAt data) (htons flags)) (checkAt data) (htons check) i =
      paste data (flagsAt data) (htons flags) i := by
    rcases off_check with before | after
    · exact paste_of_lt before
    · exact paste_of_le after
  rw [outer]
  rcases off_flags with before | after
  · exact paste_of_lt before
  · exact paste_of_le after

section

variable {data data' : ℕ → Byte} (kept : OthersKept data data')

include kept

theorem OthersKept.before {i : ℕ} (front : i < checkAt data) : data' i = data i := by
  have behind : checkAt data ≤ flagsAt data := by
    rw [checkAt, flagsAt]
    omega
  exact kept i (.inl front) (.inl (by omega))

theorem OthersKept.udpAt_eq : udpAt data' = udpAt data := by
  have byte : data' ethHlen = data ethHlen := by
    apply kept.before
    rw [checkAt, udpAt]
    omega
  rw [udpAt, byte, udpAt]

theorem OthersKept.length_eq : be16 data' (udpAt data + 4) = be16 data (udpAt data + 4) := by
  have check_at : checkAt data = udpAt data + 6 := rfl
  rw [be16, be16, kept.before (show udpAt data + 4 < _ by omega),
    kept.before (show udpAt data + 4 + 1 < _ by omega)]

theorem OthersKept.addresses_eq (ihl : 5 ≤ (data ethHlen &&& 0x0f).toNat) :
    window data' 26 8 = window data 26 8 := by
  have udp_at : checkAt data = 14 + (data ethHlen &&& 0x0f).toNat * 4 + 6 := rfl
  apply window_congr
  intro i from_base below
  exact kept.before (by omega)

end

theorem fields_paste {data data' : ℕ → Byte} {flags check : ℕ} (request : DhcpRequest data)
    (flags_lt : flags < 65536) (check_lt : check < 65536)
    (written : data' =
      paste (paste data (flagsAt data) (htons flags)) (checkAt data) (htons check)) :
    udpCheck data' = check ∧ dhcpFlags data' = flags ∧ OthersKept data data' ∧
      udpSum data' + udpCheck data + dhcpFlags data = udpSum data + check + flags := by
  have length := request.length
  have check_at : checkAt data = udpAt data + 6 := rfl
  have flags_at : flagsAt data = udpAt data + 18 := rfl
  have kept : OthersKept data data' := by
    rw [written]
    exact othersKept_paste data flags check
  obtain ⟨first, first_eq⟩ : ∃ first, paste data (flagsAt data) (htons flags) = first := ⟨_, rfl⟩
  have check_field : be16 data' (checkAt data) = check := by
    rw [written, be16_paste_htons check_lt]
  have flags_field : be16 first (flagsAt data) = flags := by
    rw [← first_eq, be16_paste_htons flags_lt]
  have old_check : be16 first (checkAt data) = be16 data (checkAt data) := by
    rw [← first_eq, be16_paste_of_le (.inl (by omega))]
  refine ⟨?_, ?_, kept, ?_⟩
  · rw [udpCheck, checkAt, kept.udpAt_eq]
    exact check_field
  · rw [dhcpFlags, flagsAt, kept.udpAt_eq, ← flags_at, written, first_eq,
      be16_paste_of_le (.inr (by rw [length_htons]; omega)), flags_field]
  · -- each field is one word of the segment
    have flags_word := onesSum_paste_word data (udpAt data) (length_htons flags)
      (show 18 % 2 = 0 from rfl) (show 18 + 2 ≤ be16 data (udpAt data + 4) by omega)
    have check_word := onesSum_paste_word first (udpAt data) (length_htons check)
      (show 6 % 2 = 0 from rfl) (show 6 + 2 ≤ be16 data (udpAt data + 4) by omega)
    rw [← flags_at, first_eq, flags_field] at flags_word
    rw [← check_at, ← first_eq, ← written, check_field, first_eq, old_check] at check_word
    simp only [udpSum, kept.udpAt_eq, kept.length_eq, kept.addresses_eq request.ihl, udpCheck,
      dhcpFlags]
    omega

section

variable (env : Env) (enabled : priv.ethBrExtInfo.dhcpBcstDisable = false)
  (request : DhcpRequest skb.data)
include enabled request

theorem dhcpFlagBcast_of_unset (unset : dhcpFlags skb.data < broadcastFlag) :
    let data' := (dhcpFlagBcast env priv skb).data
    dhcpFlags data' = dhcpFlags skb.data + broadcastFlag ∧ OthersKept skb.data data' ∧
      udpCheck data' + dhcpFlags data' ≡ udpCheck skb.data [MOD 65535] ∧
      (udpCheck data' = 0 ↔ udpCheck skb.data ≡ dhcpFlags data' [MOD 65535]) ∧
      udpSum data' + udpCheck skb.data + dhcpFlags skb.data =
        udpSum skb.data + udpCheck data' + dhcpFlags data' := by
  have flag : broadcastFlag = 0x8000 := rfl
  obtain ⟨sum, sum_lt, written, takes, zero⟩ := @setBroadcast_data skb env.order
    (flagsAt skb.data) (checkAt skb.data) (by rw [checkAt, flagsAt]; omega) unset
  obtain ⟨check', flags', kept, total⟩ := fields_paste request
    (show dhcpFlags skb.data + 0x8000 < 65536 by omega) sum_lt written
  rw [(dhcpFlagBcast_data env enabled request).1 unset]
  simp only [check', flags']
  exact ⟨rfl, kept, takes, zero, total⟩

theorem not_udpValid_dhcpFlagBcast (unset : dhcpFlags skb.data < broadcastFlag)
    (other : dhcpFlags skb.data ≠ 0) (valid : UdpValid skb.data) :
    ¬ UdpValid (dhcpFlagBcast env priv skb).data := by
  have flag : broadcastFlag = 0x8000 := rfl
  obtain ⟨flags', -, takes, -, total⟩ := dhcpFlagBcast_of_unset env enabled request unset
  have right := valid.2
  rintro ⟨-, right'⟩
  rw [fold_eq_ones_iff] at right right'
  rw [flags', Nat.ModEq] at takes
  rw [flags'] at total
  omega

theorem udpCheck_dhcpFlagBcast_of_absent (none_set : dhcpFlags skb.data = 0)
    (absent : udpCheck skb.data = 0) :
    udpCheck (dhcpFlagBcast env priv skb).data = 0x7fff := by
  have flag : broadcastFlag = 0x8000 := rfl
  obtain ⟨flags', -, takes, -, -⟩ := dhcpFlagBcast_of_unset env enabled request (by omega)
  have small : udpCheck (dhcpFlagBcast env priv skb).data < 65536 := be16_lt _ _
  rw [flags', none_set, absent, Nat.ModEq] at takes
  omega

end

end Requests

/-- For every request, the flag is set and only the checksum changes besides; a right checksum stays
right and an absent one absent exactly if the flag was set before, or no flag was set and the
checksum is not that of the new flags alone, or the checksum was absent and all other flags were
set. -/
theorem dhcp_checksum_kept_iff (env : Env) (priv : Adapter) (skb : SkBuff)
    (enabled : priv.ethBrExtInfo.dhcpBcstDisable = false) (request : DhcpRequest skb.data)
    (checked : UdpValid skb.data ∨ udpCheck skb.data = 0) :
    dhcpFlags (dhcpFlagBcast env priv skb).data = dhcpFlags skb.data ||| broadcastFlag ∧
    OthersKept skb.data (dhcpFlagBcast env priv skb).data ∧
    (((UdpValid skb.data → UdpValid (dhcpFlagBcast env priv skb).data) ∧
        (udpCheck skb.data = 0 → udpCheck (dhcpFlagBcast env priv skb).data = 0)) ↔
      broadcastFlag ≤ dhcpFlags skb.data ∨
        udpCheck skb.data ≠ 0 ∧ dhcpFlags skb.data = 0 ∧ udpCheck skb.data ≠ broadcastFlag ∨
        udpCheck skb.data = 0 ∧ dhcpFlags skb.data = 0x7fff) := by
  have flags_lt : dhcpFlags skb.data < 65536 := be16_lt _ _
  have check_lt : udpCheck skb.data < 65536 := be16_lt _ _
  have flag : broadcastFlag = 0x8000 := rfl
  rcases Nat.lt_or_ge (dhcpFlags skb.data) broadcastFlag with unset | set
  · obtain ⟨flags', kept, takes, zero, total⟩ := dhcpFlagBcast_of_unset env enabled request unset
    obtain ⟨data', data'_eq⟩ : ∃ data', (dhcpFlagBcast env priv skb).data = data' := ⟨_, rfl⟩
    rw [data'_eq] at flags' kept takes zero total ⊢
    have set_flag := (broadcast_native .big flags_lt).2 unset
    refine ⟨flags'.trans set_flag.symm, kept, ?_⟩
    rw [flags', Nat.ModEq] at takes zero
    rw [flags'] at total
    rcases checked with ⟨present, right⟩ | absent
    · -- the old flags are missing in the sum
      rw [fold_eq_ones_iff] at right
      simp only [present, UdpValid, fold_eq_ones_iff, false_implies, and_true, false_and,
        or_false, ne_eq, not_false_eq_true, true_and]
      omega
    · -- an absent checksum is taken for the number zero
      have invalid : ¬ UdpValid skb.data := fun valid => valid.1 absent
      simp only [invalid, absent, false_implies, true_implies, true_and, ne_eq,
        not_true_eq_false, false_and, false_or]
      omega
  · obtain ⟨rest, rest_eq⟩ := Nat.exists_eq_add_of_le' set
    have again : dhcpFlags skb.data ||| broadcastFlag = dhcpFlags skb.data := by
      have once := (broadcast_native .big (show rest < 65536 by omega)).2 (by omega)
      change rest ||| broadcastFlag = rest + broadcastFlag at once
      rw [rest_eq, ← once, Nat.or_assoc, Nat.or_self]
    rw [(dhcpFlagBcast_data env enabled request).2 set]
    exact ⟨again.symm, fun _ _ _ => rfl, iff_of_true ⟨id, id⟩ (.inl set)⟩

def dhcpDiscover (flags check : ℕ) : SkBuff :=
  .ofBytes
    ([0xff, 0xff, 0xff, 0xff, 0xff, 0xff, 2, 0, 0, 0, 0, 1, 0x08, 0x00] ++
      [0x45, 0, 1, 12, 0, 0, 0, 0, 64, 17, 0, 0, 0, 0, 0, 0, 0xff, 0xff, 0xff, 0xff] ++
      [0, 68, 0, 67, 0, 248] ++ htons check ++
      [1, 1, 6, 0, 0, 0, 0, 0, 0, 0] ++ htons flags ++ List.replicate 224 0 ++ dhcpMagic) 0

theorem udpSum_ofBytes {bytes : List Byte} {udp len : ℕ}
    (udp_eq : udpAt (SkBuff.ofBytes bytes 0).data = udp)
    (len_eq : be16 (SkBuff.ofBytes bytes 0).data (udp + 4) = len) (front : 34 ≤ bytes.length)
    (fits : udp + len ≤ bytes.length) :
    udpSum (SkBuff.ofBytes bytes 0).data =
      onesSum ((bytes.drop 26).take 8) + 17 + len + onesSum ((bytes.drop udp).take len) := by
  have memory : (SkBuff.ofBytes bytes 0).data = image 0 bytes := rfl
  rw [udpSum, udp_eq, len_eq, memory, window_image front, window_image fits]

theorem dhcp_checksum_kept_discover :
    dhcpFlags (dhcpFlagBcast littleHost bridgeStation (dhcpDiscover 0 0x3f91)).data =
      dhcpFlags (dhcpDiscover 0 0x3f91).data ||| broadcastFlag ∧
    (UdpValid (dhcpDiscover 0 0x3f91).data →
      UdpValid (dhcpFlagBcast littleHost bridgeStation (dhcpDiscover 0 0x3f91)).data) := by
  have request : DhcpRequest (dhcpDiscover 0 0x3f91).data := by
    constructor <;> decide +kernel
  have valid : UdpValid (dhcpDiscover 0 0x3f91).data := by
    refine ⟨by decide +kernel, ?_⟩
    rw [dhcpDiscover, @udpSum_ofBytes _ 34 248 (by decide +kernel) (by decide +kernel)
      (by decide +kernel) (by decide +kernel)]
    decide +kernel
  have kept := dhcp_checksum_kept_iff littleHost bridgeStation (dhcpDiscover 0 0x3f91) rfl request
    (.inl valid)
  exact ⟨kept.1, (kept.2.2.mpr (.inr (.inl (by decide +kernel)))).1⟩

theorem dhcp_checksum_not_kept :
    (DhcpRequest (dhcpDiscover 1 0x3f90).data ∧ UdpValid (dhcpDiscover 1 0x3f90).data ∧
      ¬ UdpValid (dhcpFlagBcast littleHost bridgeStation (dhcpDiscover 1 0x3f90)).data) ∧
    DhcpRequest (dhcpDiscover 0 0).data ∧ udpCheck (dhcpDiscover 0 0).data = 0 ∧
      udpCheck (dhcpFlagBcast littleHost bridgeStation (dhcpDiscover 0 0)).data = 0x7fff := by
  have request : DhcpRequest (dhcpDiscover 1 0x3f90).data := by
    constructor <;> decide +kernel
  have request' : DhcpRequest (dhcpDiscover 0 0).data := by
    constructor <;> decide +kernel
  have flags : dhcpFlags (dhcpDiscover 1 0x3f90).data = 1 := by decide +kernel
  have flags' : dhcpFlags (dhcpDiscover 0 0).data = 0 := by decide +kernel
  have absent : udpCheck (dhcpDiscover 0 0).data = 0 := by decide +kernel
  have valid : UdpValid (dhcpDiscover 1 0x3f90).data := by
    refine ⟨by decide +kernel, ?_⟩
    rw [dhcpDiscover, @udpSum_ofBytes _ 34 248 (by decide +kernel) (by decide +kernel)
      (by decide +kernel) (by decide +kernel)]
    decide +kernel
  refine ⟨⟨request, valid, ?_⟩, request', absent, ?_⟩
  · apply not_udpValid_dhcpFlagBcast littleHost rfl request _ _ valid
    · rw [flags]
      decide
    · rw [flags]
      decide
  · exact udpCheck_dhcpFlagBcast_of_absent littleHost rfl request' flags' absent

end Rtl88x2bu.Bridge
