import Rtl88x2bu.Rx.Defrag

/-!
# The bytes of a joined frame

`recvframe_defrag` joins fragments in the buffer of the first. Neither `recvframe_pull` nor
`recvframe_pull_tail` does anything when there is too little to take, and nobody looks.
-/

namespace Rtl88x2bu.Rx

open List

def RecvFrame.hdrIvLen (f : RecvFrame) : ℕ := f.attrib.hdrlen + f.attrib.ivLen

def RecvFrame.sealedPayload (f : RecvFrame) : List UInt8 := f.rxData.drop f.hdrIvLen

def RecvFrame.payload (f : RecvFrame) : List UInt8 :=
  f.sealedPayload.take (f.sealedPayload.length - f.attrib.icvLen)

/-- The payloads of a queue; only the last fragment keeps its ICV. -/
def queuePayloads (q : List RecvFrame) : List (List UInt8) :=
  q.dropLast.map RecvFrame.payload ++ (q.getLast?.map RecvFrame.sealedPayload).toList

/-- Each fragment has its header and its IV, whose length is kept in a byte, and all but the last an
ICV. -/
structure FragmentsWhole (q : List RecvFrame) : Prop where
  small : ∀ f ∈ q, f.hdrIvLen < 256
  header : ∀ f ∈ q, f.hdrIvLen ≤ f.rxData.length
  icv : ∀ f ∈ q.dropLast, f.hdrIvLen + f.attrib.icvLen ≤ f.rxData.length

section Loop

variable {first f next : RecvFrame} {before : List RecvFrame} {loop loop' : DefragLoop}

theorem queuePayloads_concat (before : List RecvFrame) (f : RecvFrame) :
    queuePayloads (before ++ [f]) = before.map RecvFrame.payload ++ [f.sealedPayload] := by
  rw [queuePayloads, dropLast_concat, List.getLast?_concat]
  rfl

theorem FragmentsWhole.init (whole : FragmentsWhole (before ++ [f] ++ [next])) :
    FragmentsWhole (before ++ [f]) ∧ f.hdrIvLen + f.attrib.icvLen ≤ f.rxData.length := by
  have icv := whole.icv
  rw [dropLast_concat] at icv
  refine ⟨⟨?_, ?_, ?_⟩, icv f (mem_append_right _ mem_cons_self)⟩
  · exact fun g there => whole.small g (mem_append_left _ there)
  · exact fun g there => whole.header g (mem_append_left _ there)
  · intro g there
    rw [dropLast_concat] at there
    exact icv g (mem_append_left _ there)

theorem fragmentPayload_eq (small : next.hdrIvLen < 256)
    (header : next.hdrIvLen ≤ next.rxData.length) :
    fragmentPayload next = next.sealedPayload := by
  have offset : (next.attrib.hdrlen + next.attrib.ivLen) % 256 = next.hdrIvLen :=
    Nat.mod_eq_of_lt small
  rw [fragmentPayload, offset, recvframePull, if_neg (Nat.not_lt.mpr header)]
  rfl

theorem take_sealedPayload (front : List UInt8)
    (icv : f.hdrIvLen + f.attrib.icvLen ≤ f.rxData.length) :
    (front ++ f.sealedPayload).take ((front ++ f.sealedPayload).length - f.attrib.icvLen) =
      front ++ f.payload := by
  have room : f.attrib.icvLen ≤ f.sealedPayload.length := by
    rw [RecvFrame.sealedPayload, length_drop]
    omega
  have rest : (front ++ f.sealedPayload).length - f.attrib.icvLen =
      front.length + (f.sealedPayload.length - f.attrib.icvLen) := by
    rw [length_append]
    omega
  rw [rest, take_length_add_append, RecvFrame.payload]

theorem appendPayload_rxData {prframe : RecvFrame} {payload : List UInt8} {icvLen : ℕ}
    (icv : prframe.attrib.icvLen ≤ prframe.rxData.length)
    (room : payload.length ≤ prframe.tailroom) :
    (appendPayload prframe payload icvLen).rxData =
      prframe.rxData.take (prframe.rxData.length - prframe.attrib.icvLen) ++ payload ∧
    (appendPayload prframe payload icvLen).attrib.icvLen = icvLen := by
  have cut : recvframePullTail prframe prframe.attrib.icvLen =
      { prframe with
        rxData := prframe.rxData.take (prframe.rxData.length - prframe.attrib.icvLen)
        tailroom := prframe.tailroom + prframe.attrib.icvLen } := by
    rw [recvframePullTail, if_neg (Nat.not_lt.mpr icv)]
  rw [appendPayload, cut, recvframePut, if_neg (by simp only; omega)]
  exact ⟨rfl, rfl⟩

structure JoinedData (first : RecvFrame) (q : List RecvFrame) (loop : DefragLoop) : Prop where
  last : ∃ before f, q = before ++ [f] ∧ loop.prframe.attrib.icvLen = f.attrib.icvLen
  data : FragmentsWhole q → loop.prframe.rxData =
    first.rxData.take first.hdrIvLen ++ (queuePayloads q).flatten

theorem JoinedData.append {q : List RecvFrame} (joined : JoinedData first q loop)
    (passed : defragBody loop next = some loop') : JoinedData first (q ++ [next]) loop' := by
  obtain ⟨before, f, rfl, icvLen⟩ := joined.last
  unfold defragBody at passed
  split_ifs at passed with skipped rekeyed misnumbered long
  cases passed
  refine ⟨⟨before ++ [f], next, rfl, ?_⟩, fun whole => ?_⟩
  · rfl
  · obtain ⟨whole', icv⟩ := whole.init
    have member : next ∈ before ++ [f] ++ [next] := mem_append_right _ mem_cons_self
    have payload := fragmentPayload_eq (whole.small next member) (whole.header next member)
    rw [payload] at long ⊢
    have data := joined.data whole'
    rw [queuePayloads_concat, flatten_append, flatten_singleton, ← append_assoc] at data
    obtain ⟨front, front_eq⟩ : ∃ front, first.rxData.take first.hdrIvLen ++
      (before.map RecvFrame.payload).flatten = front := ⟨_, rfl⟩
    rw [front_eq] at data
    have room : loop.prframe.attrib.icvLen ≤ loop.prframe.rxData.length := by
      rw [icvLen, data, length_append, RecvFrame.sealedPayload, length_drop]
      omega
    change (appendPayload loop.prframe next.sealedPayload next.attrib.icvLen).rxData = _
    rw [(appendPayload_rxData room (Nat.not_lt.mp long)).1, icvLen, data,
      take_sealedPayload front icv, queuePayloads_concat, map_append, flatten_append,
      flatten_append, ← front_eq]
    simp only [map_cons, map_nil, flatten_singleton, append_assoc]

end Loop

end Rtl88x2bu.Rx
