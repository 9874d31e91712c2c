import Rtl88x2bu.Usb.RecvBuf

/-!
# Buffers made of whole units

What `recvbuf2recvframe` delivers from one unit after the other, each padded to a multiple of eight
octets. The walk skips C2H packets, but it ends at the first packet with an error.
-/

namespace Rtl88x2bu.Usb

open List Option
open Rx

/-- A unit of a bulk-in buffer: the octets from its descriptor to the next one. -/
structure RxUnit where
  octets : List UInt8
  nonempty : (rtl8822bRxdesc2attribute (memOf octets)).pktLen ≠ 0
  whole : octets.length = (rtl8822bRxdesc2attribute (memOf octets)).unitSize

def RxUnit.desc (u : RxUnit) : RxDescAttrib := rtl8822bRxdesc2attribute (memOf u.octets)

def RxUnit.isGood (u : RxUnit) : Bool := u.desc.pktRptType = .normalRx && !u.desc.hasError

def RxUnit.passes (cfg : RecvbufConfig) (u : RxUnit) : Bool := cfg.mpMode || !u.desc.hasError

def unitOctets (units : List RxUnit) : List UInt8 := units.flatMap RxUnit.octets

/-- What is to be handed to `pre_recv_entry`, for units that start at an address. -/
def goodPackets (cfg : RecvbufConfig) : ℕ → List RxUnit → List (RxDescAttrib × ℕ)
  | _, [] => []
  | pbuf, u :: rest =>
    (if u.isGood then [(stripFcs cfg u.desc, packetAt u.desc pbuf)] else []) ++
      goodPackets cfg (pbuf + u.octets.length) rest

def delivered (events : List RecvbufEvent) : List (RxDescAttrib × ℕ) :=
  ((handed events).map Prod.snd).filter fun packet => !packet.1.hasError

def HoldsUnits (mem : ℕ → UInt8) (pbuf : ℕ) (units : List RxUnit) : Prop :=
  ∀ i < (unitOctets units).length, mem (pbuf + i) = memOf (unitOctets units) i

theorem rtl8822bRxdesc2attribute_congr {desc desc' : ℕ → UInt8}
    (same : ∀ i < 12, desc i = desc' i) :
    rtl8822bRxdesc2attribute desc = rtl8822bRxdesc2attribute desc' := by
  have dword : ∀ offset, offset + 3 < 12 → leDword desc offset = leDword desc' offset := by
    intro offset inside
    simp only [leDword]
    rw [same offset (by omega), same (offset + 1) (by omega), same (offset + 2) (by omega),
      same (offset + 3) (by omega)]
  simp only [rtl8822bRxdesc2attribute, dword 0 (by decide), dword 4 (by decide),
    dword 8 (by decide)]

theorem RxUnit.length_octets (u : RxUnit) : u.octets.length = u.desc.unitSize := u.whole

theorem RxUnit.rxdescSize_le (u : RxUnit) : rxdescSize ≤ u.octets.length := by
  rw [u.whole]
  exact (rtl8822bRxdesc2attribute_pktOffset (memOf u.octets)).1.trans
    (RxDescAttrib.pktOffset_le_unitSize _)

variable {mem : ℕ → UInt8} {pbuf : ℕ} {u : RxUnit} {rest : List RxUnit}
variable {cfg : RecvbufConfig}

section

variable (held : HoldsUnits mem pbuf (u :: rest))
include held

theorem HoldsUnits.desc : descAt mem pbuf = u.desc := by
  apply rtl8822bRxdesc2attribute_congr
  intro i inside
  have room := u.rxdescSize_le
  simp only [rxdescSize] at room
  rw [held i (by simp [unitOctets]; omega)]
  simp only [memOf, unitOctets, flatMap_cons]
  rw [getD_append _ _ _ _ (by omega)]

theorem HoldsUnits.tail : HoldsUnits mem (pbuf + u.octets.length) rest := by
  intro i inside
  have same := held (u.octets.length + i) (by simpa [unitOctets] using inside)
  rw [Nat.add_assoc, same]
  simp only [memOf, unitOctets, flatMap_cons]
  rw [getD_append_right _ _ _ _ (by omega), Nat.add_sub_cancel_left]

theorem HoldsUnits.goesOn (fine : u.passes cfg = true) :
    ¬ GivesUp cfg (descAt mem pbuf) (unitOctets (u :: rest)).length := by
  rw [held.desc]
  have fits : u.desc.pktOffset ≤ u.octets.length :=
    u.length_octets ▸ RxDescAttrib.pktOffset_le_unitSize u.desc
  have all : (unitOctets (u :: rest)).length = u.octets.length + (unitOctets rest).length := by
    simp [unitOctets]
  rintro (⟨mode, error⟩ | empty | short)
  · simp [RxUnit.passes, mode, error] at fine
  · exact u.nonempty empty
  · omega

end

theorem delivered_append (first rest : List RecvbufEvent) :
    delivered (first ++ rest) = delivered first ++ delivered rest := by
  simp [delivered]

theorem stripFcs_hasError (cfg : RecvbufConfig) (a : RxDescAttrib) :
    (stripFcs cfg a).hasError = a.hasError := by
  simp only [stripFcs]
  split_ifs <;> rfl

theorem recvbufTurn_unit (turn : ℕ) (held : HoldsUnits mem pbuf (u :: rest))
    (fine : u.passes cfg = true) :
    ∃ first, recvbufTurn cfg mem allAvailable turn pbuf (unitOctets (u :: rest)).length =
        (first, some u.octets.length) ∧
      delivered first =
        if u.isGood then [(stripFcs cfg u.desc, packetAt u.desc pbuf)] else [] := by
  have goesOn := held.goesOn fine
  have size := u.length_octets
  rcases recvbufTurn_cases cfg mem allAvailable turn pbuf (unitOctets (u :: rest)).length with
    ⟨unavailable, _⟩ | ⟨gives, _⟩ | ⟨_, c2h, out⟩ | ⟨_, normal, out⟩
  · cases unavailable
  · rcases gives with up | ⟨noMemory, _⟩
    · exact absurd up goesOn
    · cases noMemory
  · rw [held.desc] at c2h out
    refine ⟨_, by rw [out, size], ?_⟩
    simp [delivered, handed, RxUnit.isGood, c2h]
  · rw [held.desc] at normal out
    refine ⟨_, by rw [out, size], ?_⟩
    -- in the test mode a packet with an error is handed on too, but is not counted
    cases error : u.desc.hasError <;>
      simp [delivered, handed, RxUnit.isGood, normal, stripFcs_hasError, error]

theorem recvbufTurn_error (turn : ℕ) (held : HoldsUnits mem pbuf (u :: rest))
    (wrong : ¬ u.passes cfg = true) :
    ∃ first, recvbufTurn cfg mem allAvailable turn pbuf (unitOctets (u :: rest)).length =
        (first, none) ∧ delivered first = [] := by
  have error : cfg.mpMode = false ∧ u.desc.hasError = true := by
    simpa [RxUnit.passes] using wrong
  have up : GivesUp cfg (descAt mem pbuf) (unitOctets (u :: rest)).length := by
    rw [held.desc]
    exact .inl error
  rcases recvbufTurn_cases cfg mem allAvailable turn pbuf (unitOctets (u :: rest)).length with
    ⟨unavailable, _⟩ | ⟨_, out⟩ | ⟨goesOn, _⟩ | ⟨goesOn, _⟩
  · cases unavailable
  · exact ⟨_, out, by simp [delivered, handed]⟩
  · exact absurd up goesOn
  · exact absurd up goesOn

theorem unitOctets_cons (u : RxUnit) (rest : List RxUnit) :
    (unitOctets (u :: rest)).length = u.octets.length + (unitOctets rest).length := by
  simp [unitOctets]

section

variable (cfg)

theorem recvbufLoop_units (turn : ℕ) {fuel pbuf : ℕ} {units : List RxUnit} (held : HoldsUnits mem pbuf units) (someUnit : units ≠ []) (enough : (unitOctets units).length < fuel) :
    ∃ events, recvbufLoop cfg mem allAvailable fuel turn pbuf (unitOctets units).length =
        some events ∧
      delivered events =
        goodPackets cfg pbuf (units.takeWhile (RxUnit.passes cfg)) := by
  induction units generalizing fuel turn pbuf with
  | nil => exact absurd rfl someUnit
  | cons u rest ih =>
    obtain ⟨fuel, rfl⟩ : ∃ f, fuel = f + 1 := ⟨fuel - 1, by omega⟩
    have size := unitOctets_cons u rest
    have room := u.rxdescSize_le
    simp only [rxdescSize] at room
    simp only [recvbufLoop]
    by_cases fine : u.passes cfg = true
    · obtain ⟨first, out, packets⟩ := recvbufTurn_unit turn held fine
      rw [out, takeWhile_cons_of_pos fine, goodPackets, ← packets]
      dsimp only
      cases rest with
      | nil =>
        -- nothing is left after the last unit
        rw [if_neg (by simp [unitOctets])]
        exact ⟨first, rfl, by simp [goodPackets]⟩
      | cons v later =>
        have more := v.rxdescSize_le
        have size' := unitOctets_cons v later
        simp only [rxdescSize] at more
        obtain ⟨events, run, rest_packets⟩ :=
          ih (turn + 1) held.tail (by simp) (show _ < fuel by omega)
        have left : (unitOctets (u :: v :: later)).length - u.octets.length =
            (unitOctets (v :: later)).length := by omega
        rw [if_pos (by omega), left, run]
        exact ⟨first ++ events, rfl, by rw [delivered_append, rest_packets]⟩
    · obtain ⟨first, out, none⟩ := recvbufTurn_error turn held fine
      rw [out, takeWhile_cons_of_neg fine]
      exact ⟨first, rfl, none⟩

theorem goodPackets_eq_nil_iff (pbuf : ℕ) (units : List RxUnit) :
    goodPackets cfg pbuf units = [] ↔ ∀ u ∈ units, u.isGood = false := by
  induction units generalizing pbuf with
  | nil => simp [goodPackets]
  | cons u rest ih =>
    cases good : u.isGood <;> simp [goodPackets, good, ih]

theorem goodPackets_takeWhile_iff (fine : RxUnit → Bool) (pbuf : ℕ) (units : List RxUnit) (stops : ∀ u ∈ units, fine u = false → u.isGood = false) :
    goodPackets cfg pbuf (units.takeWhile fine) = goodPackets cfg pbuf units ↔
      units.Pairwise fun u v => fine u = false → v.isGood = false := by
  induction units generalizing pbuf with
  | nil => simp
  | cons u rest ih =>
    rw [pairwise_cons]
    have later : ∀ v ∈ rest, fine v = false → v.isGood = false :=
      fun v member => stops v (mem_cons_of_mem u member)
    cases passes : fine u with
    | true =>
      rw [takeWhile_cons_of_pos passes]
      simp only [goodPackets, append_cancel_left_eq, Bool.true_eq_false, false_implies,
        implies_true, true_and]
      exact ih _ later
    | false =>
      have bad := stops u mem_cons_self passes
      rw [takeWhile_cons_of_neg (by simp [passes])]
      simp only [goodPackets, bad, Bool.false_eq_true, if_false, nil_append]
      rw [eq_comm, goodPackets_eq_nil_iff]
      simp only [true_implies]
      constructor
      · intro none
        exact ⟨none, pairwise_of_forall_mem_list fun a _ b inB _ => none b inB⟩
      · exact fun both => both.1

end

/-- From a buffer of whole units, with frames and memory always available, the good packets are
delivered once each and in order exactly when, outside the test mode, no packet with an error comes
before a good one. -/
theorem recvbuf2recvframe_delivers_iff (cfg : RecvbufConfig) (mem : ℕ → UInt8) {units : List RxUnit}
    (someUnit : units ≠ []) (held : HoldsUnits mem 0 units) :
    (∃ events,
      recvbuf2recvframe cfg mem allAvailable (unitOctets units).length = some events ∧
        delivered events = goodPackets cfg 0 units) ↔
      cfg.mpMode = true ∨
        units.Pairwise fun u v => u.desc.hasError = true → v.isGood = false := by
  obtain ⟨events, run, packets⟩ := recvbufLoop_units cfg 0 held someUnit (Nat.lt_succ_self _)
  have stops : ∀ u ∈ units, u.passes cfg = false → u.isGood = false := by
    intro u _ wrong
    have error : cfg.mpMode = false ∧ u.desc.hasError = true := by simpa [RxUnit.passes] using wrong
    simp [RxUnit.isGood, error.2]
  have whole : (∃ events,
      recvbuf2recvframe cfg mem allAvailable (unitOctets units).length = some events ∧
        delivered events = goodPackets cfg 0 units) ↔
      goodPackets cfg 0 (units.takeWhile (RxUnit.passes cfg)) = goodPackets cfg 0 units := by
    rw [← packets]
    constructor
    · rintro ⟨other, sameRun, same⟩
      rw [recvbuf2recvframe, run, some.injEq] at sameRun
      rw [sameRun, same]
    · exact fun same => ⟨events, run, same⟩
  rw [whole, goodPackets_takeWhile_iff cfg (RxUnit.passes cfg) 0 units stops]
  cases mode : cfg.mpMode with
  | true =>
    refine iff_of_true (pairwise_of_forall ?_) (.inl rfl)
    intro u v wrong
    simp [RxUnit.passes, mode] at wrong
  | false => simp [RxUnit.passes, mode]

def unitOf (flags : UInt8) (nonempty : (rtl8822bRxdesc2attribute
      (memOf (8 :: flags :: List.replicate 30 0))).pktLen ≠ 0)
    (whole : (8 :: flags :: List.replicate 30 0 : List UInt8).length =
      (rtl8822bRxdesc2attribute (memOf (8 :: flags :: List.replicate 30 0))).unitSize) : RxUnit :=
  ⟨8 :: flags :: List.replicate 30 0, nonempty, whole⟩

def goodUnit : RxUnit := unitOf 0 (by decide) (by decide)

def crcErrUnit : RxUnit := unitOf 0x40 (by decide) (by decide)

theorem recvbuf2recvframe_delivers_two :
    ∃ events, recvbuf2recvframe {} (memOf (unitOctets [goodUnit, crcErrUnit])) allAvailable
        (unitOctets [goodUnit, crcErrUnit]).length = some events ∧
      delivered events = goodPackets {} 0 [goodUnit, crcErrUnit] := by
  have held : HoldsUnits (memOf (unitOctets [goodUnit, crcErrUnit])) 0 [goodUnit, crcErrUnit] :=
    fun i _ => by rw [Nat.zero_add]
  exact (recvbuf2recvframe_delivers_iff {} _ (by simp) held).mpr (.inr (by decide +kernel))

theorem recvbuf2recvframe_loses :
    ¬ ∀ (cfg : RecvbufConfig) (mem : ℕ → UInt8) (units : List RxUnit), units ≠ [] →
      HoldsUnits mem 0 units →
      ∃ events, recvbuf2recvframe cfg mem allAvailable (unitOctets units).length = some events ∧
        delivered events = goodPackets cfg 0 units := by
  intro claimed
  obtain ⟨events, run, packets⟩ := claimed {} (memOf (unitOctets [crcErrUnit, goodUnit]))
    [crcErrUnit, goodUnit] (by simp) fun i _ => by rw [Nat.zero_add]
  have nothing : (recvbuf2recvframe {} (memOf (unitOctets [crcErrUnit, goodUnit])) allAvailable
      (unitOctets [crcErrUnit, goodUnit]).length).map delivered = some [] := by decide +kernel
  rw [run, map_some, some.injEq, packets] at nothing
  revert nothing
  decide +kernel

end Rtl88x2bu.Usb
