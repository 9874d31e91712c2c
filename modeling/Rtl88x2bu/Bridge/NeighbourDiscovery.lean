import Rtl88x2bu.Bridge.Contained
import Rtl88x2bu.Bridge.Checksum

/-!
# Neighbour discovery of bridge clients

`update_nd_link_layer_addr` looks for the link-layer address among the options of a message by the
lengths that they state; it does not move on at an option of length zero.
-/

namespace Rtl88x2bu.Bridge

open Rx (MacAddr)
open Tape Walk OnesComplement

variable (data : ℕ → Byte)

/-! ## The search for the address -/

/-- The search comes to `p`. -/
def NdVisited (len p : ℕ) : Prop :=
  ∃ start tag, ndOptions (data icmpAt) = some (start, tag) ∧ icmpAt + start ≤ len ∧
    OptVisited data tag len (icmpAt + start) p

/-- The search comes to an option of length zero. -/
def ZeroLengthOption (len : ℕ) : Prop :=
  ∃ p, NdVisited data len p ∧ p < len ∧ data (p + 1) = 0

/-- The search finds the link-layer address at `p`. -/
def AddressOption (len p : ℕ) : Prop :=
  ∃ start tag, ndOptions (data icmpAt) = some (start, tag) ∧ icmpAt + start ≤ len ∧
    OptVisited data tag len (icmpAt + start) p ∧ optHit data tag len p = true

section Search

variable {data : ℕ → Byte} {tag : Byte} {len start p fuel : ℕ}

theorem optMore_bounded (p : ℕ) (more : optMore len p = true) : p < len := by
  simpa [optMore] using more

theorem optNext_forward (data : ℕ → Byte) (p : ℕ) : p ≤ optNext data p :=
  Nat.le_add_right p _

theorem optNext_eq_self_iff : optNext data p = p ↔ data (p + 1) = 0 := by
  rw [optNext, ← UInt8.toNat_inj]
  constructor
  · intro stuck
    change (data (p + 1)).toNat = 0
    omega
  · intro zero
    rw [zero]
    rfl

theorem optHit_of_zero (zero : data (p + 1) = 0) : optHit data tag len p = false := by
  simp [optHit, zero]

/-- The search does not end exactly if it comes to an option of length zero. -/
theorem optSearch_eq_endless_iff (enough : len - start < fuel) :
    search (optMore len) (optHit data tag len) (optNext data) fuel start = .endless ↔
      ∃ p, OptVisited data tag len start p ∧ p < len ∧ data (p + 1) = 0 := by
  rw [search_eq_endless_iff optMore_bounded (fun p _ _ => optNext_forward data p) enough]
  refine exists_congr fun p => and_congr_right fun _ => ?_
  constructor
  · rintro ⟨more, -, stuck⟩
    exact ⟨optMore_bounded p more, optNext_eq_self_iff.mp stuck⟩
  · rintro ⟨inside, zero⟩
    exact ⟨decide_eq_true inside, optHit_of_zero zero, optNext_eq_self_iff.mpr zero⟩

theorem optHit_bounded (hit : optHit data tag len p = true) : p < len := by
  have option : data p = tag ∧ data (p + 1) = 1 ∧ p + 8 ≤ len := by simpa [optHit] using hit
  omega

theorem no_option_of_nowhere (nowhere : ∀ start tag, ndOptions (data icmpAt) = some (start, tag) →
      ¬ icmpAt + start ≤ len) : ¬ ZeroLengthOption data len ∧ ∀ p, ¬ AddressOption data len p := by
  constructor
  · rintro ⟨p, ⟨start, tag, options, long, -⟩, -⟩
    exact nowhere start tag options long
  · rintro p ⟨start, tag, options, long, -⟩
    exact nowhere start tag options long

section

variable (options : ndOptions (data icmpAt) = some (start, tag)) (long : icmpAt + start ≤ len)
  (enough : len - (icmpAt + start) < fuel)

include options long enough

theorem zeroLengthOption_iff_endless :
    ZeroLengthOption data len ↔
      search (optMore len) (optHit data tag len) (optNext data) fuel (icmpAt + start) =
        .endless := by
  rw [optSearch_eq_endless_iff enough]
  constructor
  · rintro ⟨p, ⟨start', tag', options', -, visited⟩, inside, zero⟩
    cases options.symm.trans options'
    exact ⟨p, visited, inside, zero⟩
  · rintro ⟨p, visited, inside, zero⟩
    exact ⟨p, ⟨start, tag, options, long, visited⟩, inside, zero⟩

theorem addressOption_iff_found :
    AddressOption data len p ↔
      search (optMore len) (optHit data tag len) (optNext data) fuel (icmpAt + start) =
        .found p := by
  rw [search_eq_found_iff optMore_bounded (fun p _ _ => optNext_forward data p) enough]
  constructor
  · rintro ⟨start', tag', options', -, visited, hit⟩
    cases options.symm.trans options'
    exact ⟨visited, decide_eq_true (optHit_bounded hit), hit⟩
  · rintro ⟨visited, -, hit⟩
    exact ⟨start, tag, options, long, visited, hit⟩

end

end Search

/-! ## Writing the address -/

section Update

variable (skb : SkBuff) (replaceMac : MacAddr)

/-- The three ways of the function, by what the message has. -/
theorem updateNdLinkLayerAddr_cases (message : icmpAt ≤ skb.len) :
    (updateNdLinkLayerAddr skb (skb.len - icmpAt) replaceMac).1.len = skb.len ∧
    (ZeroLengthOption skb.data skb.len ∧
        (updateNdLinkLayerAddr skb (skb.len - icmpAt) replaceMac).2 = none ∨
      ¬ ZeroLengthOption skb.data skb.len ∧
        ((∃ p, AddressOption skb.data skb.len p ∧
            (updateNdLinkLayerAddr skb (skb.len - icmpAt) replaceMac).2 = some true ∧
            (updateNdLinkLayerAddr skb (skb.len - icmpAt) replaceMac).1.data =
              paste skb.data (p + 2) replaceMac.toList) ∨
          (∀ p, ¬ AddressOption skb.data skb.len p) ∧
            (updateNdLinkLayerAddr skb (skb.len - icmpAt) replaceMac).2 = some false ∧
            (updateNdLinkLayerAddr skb (skb.len - icmpAt) replaceMac).1.data = skb.data)) := by
  cases options : ndOptions (skb.data icmpAt) with
  | none =>
    -- no message of neighbour discovery
    obtain ⟨no_zero, no_address⟩ := @no_option_of_nowhere skb.data skb.len fun start tag found =>
      by cases options.symm.trans found
    simp only [updateNdLinkLayerAddr, touch_data, options]
    exact ⟨rfl, .inr ⟨no_zero, .inr ⟨no_address, trivial, trivial⟩⟩⟩
  | some option =>
    obtain ⟨start, tag⟩ := option
    simp only [updateNdLinkLayerAddr, touch_data, options]
    by_cases long : icmpAt + start ≤ skb.len
    swap
    · -- the message ends before its options
      have nowhere (start' : ℕ) (tag' : Byte)
          (found : ndOptions (skb.data icmpAt) = some (start', tag')) :
          ¬ icmpAt + start' ≤ skb.len := by
        cases options.symm.trans found
        exact long
      obtain ⟨no_zero, no_address⟩ := no_option_of_nowhere nowhere
      rw [if_neg (by omega)]
      exact ⟨rfl, .inr ⟨no_zero, .inr ⟨no_address, rfl, rfl⟩⟩⟩
    obtain ⟨same, -, result⟩ := scanTlvLoop_spec tag (skb.len - icmpAt - start + 1)
      (skb.touch icmpAt 1) (icmpAt + start) (skb.len - icmpAt - start)
      (by rw [touch_len]; omega)
    have rounds : skb.len - (icmpAt + start) < skb.len - icmpAt - start + 1 := by omega
    have endless := zeroLengthOption_iff_endless options long rounds
    have finds p := @addressOption_iff_found _ _ _ _ p _ options long rounds
    rw [if_pos (by omega), scanTlv]
    obtain ⟨⟨skb', scan⟩, scan_eq⟩ : ∃ out, scanTlvLoop tag 1 (skb.len - icmpAt - start + 1)
      (skb.touch icmpAt 1) (icmpAt + start) (skb.len - icmpAt - start) = out := ⟨_, rfl⟩
    rw [scan_eq] at same result ⊢
    simp only [touch_data, touch_len] at result
    refine ⟨?_, ?_⟩
    · cases scan <;> exact same.len
    -- the search ends in one of three ways, and the function with it
    cases outcome : search (optMore skb.len) (optHit skb.data tag skb.len) (optNext skb.data)
        (skb.len - icmpAt - start + 1) (icmpAt + start) with
    | endless =>
      rw [outcome] at result endless
      subst result
      exact .inl ⟨endless.mpr rfl, rfl⟩
    | found p =>
      rw [outcome] at result endless finds
      subst result
      have no_zero : ¬ ZeroLengthOption skb.data skb.len := fun zero => by cases endless.mp zero
      refine .inr ⟨no_zero, .inl ⟨p, (finds p).mpr rfl, rfl, ?_⟩⟩
      change paste skb'.data (p + 2) replaceMac.toList = _
      rw [same.data, touch_data]
    | missing =>
      rw [outcome] at result endless finds
      subst result
      have no_zero : ¬ ZeroLengthOption skb.data skb.len := fun zero => by cases endless.mp zero
      have no_address p : ¬ AddressOption skb.data skb.len p :=
        fun address => by cases (finds p).mp address
      exact .inr ⟨no_zero, .inr ⟨no_address, rfl, same.data⟩⟩

end Update

/-- The function returns exactly if the search does not come to an option of length zero. There, no
number of rounds is enough; elsewhere each round leaves fewer bytes. -/
theorem nd_update_returns_iff (skb : SkBuff) (replaceMac : MacAddr) (message : icmpAt ≤ skb.len) :
    ((updateNdLinkLayerAddr skb (skb.len - icmpAt) replaceMac).2 ≠ none ↔
      ¬ ZeroLengthOption skb.data skb.len) ∧
    (∀ p, p < skb.len →
      (skb.len - optNext skb.data p < skb.len - p ↔ skb.data (p + 1) ≠ 0)) ∧
    ∀ start tag, ndOptions (skb.data icmpAt) = some (start, tag) → icmpAt + start ≤ skb.len →
      ZeroLengthOption skb.data skb.len → ∀ fuel,
        (scanTlvLoop tag 1 fuel skb (icmpAt + start) (skb.len - icmpAt - start)).2 = .endless := by
  refine ⟨?_, ?_, ?_⟩
  · obtain ⟨-, ⟨zero, stuck⟩ | ⟨moves, ⟨p, -, done, -⟩ | ⟨-, done, -⟩⟩⟩ :=
      updateNdLinkLayerAddr_cases skb replaceMac message
    · exact iff_of_false (fun returns => returns stuck) fun moves => moves zero
    · exact iff_of_true (by rw [done]; exact Option.some_ne_none _) moves
    · exact iff_of_true (by rw [done]; exact Option.some_ne_none _) moves
  · intro p inside
    rw [Ne, ← optNext_eq_self_iff]
    have forward := optNext_forward skb.data p
    omega
  · rintro start tag options long ⟨p, ⟨start', tag', found, -, visited⟩, inside, zero⟩ fuel
    rw [options] at found
    cases found
    obtain ⟨-, -, result⟩ := scanTlvLoop_spec tag fuel skb (icmpAt + start)
      (skb.len - icmpAt - start) (by omega)
    rw [result, visited.endless (decide_eq_true inside) (optHit_of_zero zero)
      (optNext_eq_self_iff.mpr zero)]
    rfl

/-- A router solicitation from fe80::200:ff:fe00:1. -/
def routerSolicitation (options : List Byte) (cksum : ℕ) : SkBuff :=
  .ofBytes
    ([0x33, 0x33, 0, 0, 0, 2, 2, 0, 0, 0, 0, 1, 0x86, 0xdd, 0x60, 0, 0, 0] ++
      htons (8 + options.length) ++ [58, 255] ++
      [0xfe, 0x80, 0, 0, 0, 0, 0, 0, 2, 0, 0, 0xff, 0xfe, 0, 0, 1] ++
      [0xff, 0x02, 0, 0, 0, 0, 0, 0, 0, 0, 0, 0, 0, 0, 0, 2] ++
      [133, 0] ++ htons cksum ++ [0, 0, 0, 0] ++ options) 0

theorem not_zeroLengthOption_of_returns {skb : SkBuff} (message : icmpAt ≤ skb.len)
    (returns : (updateNdLinkLayerAddr skb (skb.len - icmpAt) bridgeStation.macAddr).2 ≠ none) :
    ¬ ZeroLengthOption skb.data skb.len := by
  intro zero
  obtain ⟨-, ⟨-, stuck⟩ | ⟨moves, -⟩⟩ :=
    updateNdLinkLayerAddr_cases skb bridgeStation.macAddr message
  · exact returns stuck
  · exact moves zero

def solicitation : SkBuff := routerSolicitation [1, 1, 2, 0, 0, 0, 0, 1] 0x792c

theorem nd_update_returns_solicitation :
    (updateNdLinkLayerAddr solicitation 16 bridgeStation.macAddr).2 ≠ none ∧
    ¬ ZeroLengthOption solicitation.data 70 := by
  have returns := nd_update_returns_iff solicitation bridgeStation.macAddr (by decide)
  have some_true : (updateNdLinkLayerAddr solicitation 16 bridgeStation.macAddr).2 ≠ none := by
    decide +kernel
  exact ⟨some_true, returns.1.mp some_true⟩

def stuckSolicitation : SkBuff := routerSolicitation [1, 0, 2, 0, 0, 0, 0, 1] 0x792d

theorem zero_length_option_never_returns :
    (updateNdLinkLayerAddr stuckSolicitation 16 bridgeStation.macAddr).2 = none ∧
    ∀ fuel, (scanTlvLoop 1 1 fuel stuckSolicitation 62 8).2 = .endless := by
  refine ⟨by decide +kernel, fun fuel => ?_⟩
  obtain ⟨-, -, result⟩ := scanTlvLoop_spec 1 fuel stuckSolicitation 62 8 (by decide)
  have zero : stuckSolicitation.data (62 + 1) = 0 := by decide
  have visited : OptVisited stuckSolicitation.data 1 70 62 62 := .here 62
  rw [result, show stuckSolicitation.len = 70 from rfl,
    visited.endless (by decide) (optHit_of_zero zero) (optNext_eq_self_iff.mpr zero)]
  rfl

/-! ## The checksum -/

/-- The sum that the checksum of an ICMPv6 message of `n` bytes makes all ones. -/
def icmp6Sum (n : ℕ) : ℕ :=
  onesSum (window data 22 16) + onesSum (window data 38 16) + n / 65536 + n % 65536 + 58 +
    onesSum (window data icmpAt n)

/-- The checksum of the message is right. -/
def Icmp6Valid : Prop :=
  fold (icmp6Sum data (be16 data 18)) = 65535

instance (data : ℕ → Byte) : Decidable (Icmp6Valid data) := by
  unfold Icmp6Valid
  infer_instance

section Checksum

variable {env : Env} {skb : SkBuff}

theorem icmp6Sum_paste {data : ℕ → Byte} {n c : ℕ} (zeroed : be16 data (icmpAt + 2) = 0)
    (small : c < 65536) (long : 4 ≤ n) :
    icmp6Sum (paste data (icmpAt + 2) (htons c)) n = icmp6Sum data n + c := by
  have message : onesSum (window (paste data (icmpAt + 2) (htons c)) icmpAt n) =
      onesSum (window data icmpAt n) + c := by
    have word := onesSum_paste_word data icmpAt (length_htons c) (show 2 % 2 = 0 from rfl) long
    rw [be16_paste_htons small, zeroed, Nat.add_zero] at word
    exact word
  rw [icmp6Sum, icmp6Sum, message, window_paste (Or.inl (by decide)),
    window_paste (Or.inl (by decide)), ← Nat.add_assoc]

theorem updateIcmpCksum_data :
    (updateIcmpCksum env skb).data =
      paste (paste skb.data (icmpAt + 2) [0, 0]) (icmpAt + 2)
        (htons (65535 - fold (icmp6Sum (paste skb.data (icmpAt + 2) [0, 0])
          (csumPartialLen env skb)))) := by
  have field : native16 env.order (paste skb.data (icmpAt + 2) [0, 0]) 18 =
      native16 env.order skb.data 18 :=
    native16_paste_of_le (Or.inl (by decide))
  simp only [updateIcmpCksum, csumPartialLen, store_data, touch_data, field, csumIpv6Magic,
    icmp6Sum]

/-- The new checksum is right if it is taken over the whole message. -/
theorem updateIcmpCksum_valid (exact_len : csumPartialLen env skb = be16 skb.data 18)
    (long : 4 ≤ be16 skb.data 18) : Icmp6Valid (updateIcmpCksum env skb).data := by
  obtain ⟨zeroed, zeroed_eq⟩ : ∃ zeroed, paste skb.data (icmpAt + 2) [0, 0] = zeroed := ⟨_, rfl⟩
  have zero : be16 zeroed (icmpAt + 2) = 0 := by
    rw [← zeroed_eq]
    exact @be16_paste_htons 0 (by decide) skb.data (icmpAt + 2)
  have field (c : ℕ) : be16 (paste zeroed (icmpAt + 2) (htons c)) 18 = be16 skb.data 18 := by
    rw [be16_paste_of_le (Or.inl (by decide)), ← zeroed_eq, be16_paste_of_le (Or.inl (by decide))]
  have small : 65535 - fold (icmp6Sum zeroed (be16 skb.data 18)) < 65536 := by omega
  rw [updateIcmpCksum_data, zeroed_eq, exact_len, Icmp6Valid, field, icmp6Sum_paste zero small long]
  exact fold_add_complement _

end Checksum

/-! ## Clients' messages -/

/-- The length fields agree with the frame, the options have a length, and the checksum is right. -/
structure NdFrame (skb : SkBuff) : Prop where
  protocol : be16 skb.data 12 = ethPIpv6
  nexthdr : skb.data 20 = 58
  payloadLen : skb.len = icmpAt + be16 skb.data 18
  options : ¬ ZeroLengthOption skb.data skb.len
  checksum : Icmp6Valid skb.data

/-- There is an address to replace. -/
def NdRewrites (skb : SkBuff) : Prop :=
  ipv6At skb.data 22 ≠ Vector.replicate 16 0 ∧ ∃ p, AddressOption skb.data skb.len p

section Clients

variable {env : Env} {priv : Adapter} {skb : SkBuff}

theorem AddressOption.bounds {data : ℕ → Byte} {len p : ℕ} (option : AddressOption data len p) :
    icmpAt + 8 ≤ p ∧ p + 8 ≤ len := by
  obtain ⟨start, tag, options, -, visited, hit⟩ := option
  have behind : icmpAt + start ≤ p := visited.le fun p => Nat.le_add_right p _
  have inside : data p = tag ∧ data (p + 1) = 1 ∧ p + 8 ≤ len := by simpa [optHit] using hit
  have fixed : 8 ≤ start := by
    unfold ndOptions at options
    split_ifs at options <;> cases options <;> decide
  exact ⟨by omega, inside.2.2⟩

theorem NdFrame.touch (frame : NdFrame skb) (offset n : ℕ) : NdFrame (skb.touch offset n) :=
  ⟨frame.protocol, frame.nexthdr, frame.payloadLen, frame.options, frame.checksum⟩

/-- Either the address and the checksum are replaced, or nothing is. -/
theorem ipv6Rewrite_data (env : Env) (priv : Adapter) (frame : NdFrame skb) :
    (∃ p skb', AddressOption skb.data skb.len p ∧
        skb'.data = paste skb.data (p + 2) priv.macAddr.toList ∧
        (ipv6Rewrite env priv skb).skb = updateIcmpCksum env skb') ∨
      (∀ p, ¬ AddressOption skb.data skb.len p) ∧
        (ipv6Rewrite env priv skb).skb.data = skb.data := by
  have message : icmpAt ≤ skb.len := by
    rw [frame.payloadLen]
    exact Nat.le_add_right _ _
  obtain ⟨-, written⟩ := updateNdLinkLayerAddr_cases skb priv.macAddr message
  have left : skb.len - ethHlen - ipv6HdrLen = skb.len - icmpAt := Nat.sub_sub ..
  rw [ipv6Rewrite, left]
  obtain ⟨⟨skb', found⟩, update_eq⟩ : ∃ out,
    updateNdLinkLayerAddr skb (skb.len - icmpAt) priv.macAddr = out := ⟨_, rfl⟩
  rw [update_eq] at written ⊢
  obtain ⟨zero, -⟩ | ⟨-, ⟨p, option, rfl, data⟩ | ⟨missing, rfl, data⟩⟩ := written
  · exact absurd zero frame.options
  · exact .inl ⟨p, skb', option, data, rfl⟩
  · exact .inr ⟨missing, data⟩

theorem nat25DbHandle_insert_nd (env : Env) (priv : Adapter) (frame : NdFrame skb) :
    (NdRewrites skb ∧ ∃ p skb', AddressOption skb.data skb.len p ∧
        skb'.data = paste skb.data (p + 2) priv.macAddr.toList ∧
        (nat25DbHandle env priv skb .insert).skb = updateIcmpCksum env skb') ∨
      ¬ NdRewrites skb ∧ (nat25DbHandle env priv skb .insert).skb.data = skb.data := by
  have handled : nat25DbHandle env priv skb .insert =
      handleIpv6 env priv (skb.touch (2 * ethAlen) 2) .insert := by
    rw [nat25DbHandle]
    simp only [touch_data, ethAlen, Nat.reduceMul, frame.protocol]
    rfl
  rw [handled, handleIpv6]
  split
  · -- no byte behind the IPv6 header
    next short =>
    refine .inr ⟨?_, rfl⟩
    rintro ⟨-, p, option⟩
    have bounds := option.bounds
    rw [touch_len] at short
    simp only [ipv6HdrLen, ethHlen, icmpAt] at short bounds
    omega
  · simp only [ipv6Insert]
    split
    · -- a probe for duplicates has no source address
      next unspecified => exact .inr ⟨fun rewrites => rewrites.1 unspecified, rfl⟩
    next specified =>
    split
    · obtain ⟨p, skb', option, data, handled⟩ | ⟨missing, same⟩ := ipv6Rewrite_data env
        (dbNetworkInsert env.malloc priv (macAt skb.data 6) (.ipv6 (ipv6At skb.data 22)))
        ((((frame.touch (2 * ethAlen) 2).touch 22 16).touch 6 6).touch 20 1)
      · have station : (dbNetworkInsert env.malloc priv (macAt skb.data 6)
            (.ipv6 (ipv6At skb.data 22))).macAddr = priv.macAddr := by
          rw [dbNetworkInsert]
          split
          · rfl
          · split <;> rfl
        rw [station] at data
        exact .inl ⟨⟨specified, p, option⟩, p, skb', option, data, handled⟩
      · exact .inr ⟨fun rewrites => rewrites.2.elim missing, same⟩
    next other =>
      refine .inr ⟨?_, rfl⟩
      rintro ⟨-, p, option⟩
      have bounds := option.bounds
      apply other
      refine ⟨frame.nexthdr, ?_⟩
      change ethHlen + ipv6HdrLen + 4 < skb.len
      simp only [ipv6HdrLen, ethHlen, icmpAt] at bounds ⊢
      omega

end Clients

theorem native16_little_eq_be16_iff (offset : ℕ) :
    native16 .little data offset = be16 data offset ↔ data offset = data (offset + 1) := by
  rw [native16, be16, ← UInt8.toNat_inj]
  have high := (data offset).toNat_lt
  have low := (data (offset + 1)).toNat_lt
  omega

/-- The frame that inserting leaves has the checksum of its contents, summed over `payload_len`
bytes, exactly if the address is not replaced or the two bytes of the length are equal:
`payload_len` goes to the sums in network order. -/
theorem nd_checksum_right_iff (env : Env) (priv : Adapter) (skb : SkBuff)
    (little : env.order = .little) (frame : NdFrame skb) :
    (Icmp6Valid (nat25DbHandle env priv skb .insert).skb.data ∧
        (NdRewrites skb → csumPartialLen env skb = be16 skb.data 18)) ↔
      (NdRewrites skb → skb.data 18 = skb.data 19) := by
  rw [csumPartialLen, little, native16_little_eq_be16_iff]
  constructor
  · exact fun right => right.2
  · intro equal
    refine ⟨?_, equal⟩
    obtain ⟨rewrites, p, skb', option, data, handled⟩ | ⟨-, same⟩ :=
      nat25DbHandle_insert_nd env priv frame
    · -- the new address lies behind the length and behind the checksum
      obtain ⟨behind, inside⟩ := option.bounds
      have away : 20 ≤ p + 2 := by
        simp only [icmpAt] at behind
        omega
      have field : be16 skb'.data 18 = be16 skb.data 18 := by
        rw [data, be16_paste_of_le (Or.inl away)]
      have native : native16 .little skb'.data 18 = native16 .little skb.data 18 := by
        rw [data, native16_paste_of_le (Or.inl away)]
      rw [handled]
      apply updateIcmpCksum_valid
      · rw [csumPartialLen, little, native, field, native16_little_eq_be16_iff]
        exact equal rewrites
      · have payloadLen := frame.payloadLen
        rw [field]
        omega
    · rw [same]
      exact frame.checksum

theorem nd_checksum_right_solicitation :
    NdFrame solicitation ∧
    ((Icmp6Valid (nat25DbHandle littleHost bridgeStation solicitation .insert).skb.data ∧
        (NdRewrites solicitation →
          csumPartialLen littleHost solicitation = be16 solicitation.data 18)) ↔
      (NdRewrites solicitation → (0 : Byte) = 16)) := by
  have frame : NdFrame solicitation := by
    constructor
    case options => exact not_zeroLengthOption_of_returns (by decide) (by decide +kernel)
    case checksum => decide +kernel
    all_goals decide
  exact ⟨frame, nd_checksum_right_iff littleHost bridgeStation _ rfl frame⟩

def longSolicitation : SkBuff :=
  routerSolicitation ([1, 1, 2, 0, 0, 0, 0, 1, 14, 30] ++ List.replicate 238 0) 0x6a1e

theorem nd_checksum_over_swapped_length :
    NdFrame longSolicitation ∧ be16 longSolicitation.data 18 = 256 ∧
    csumPartialLen littleHost longSolicitation = 1 ∧
    ¬ Icmp6Valid (nat25DbHandle littleHost bridgeStation longSolicitation .insert).skb.data := by
  refine ⟨?_, by decide +kernel, by decide +kernel, ?_⟩
  · constructor
    case options => exact not_zeroLengthOption_of_returns (by decide +kernel) (by decide +kernel)
    all_goals decide +kernel
  · decide +kernel

end Rtl88x2bu.Bridge
