import Rtl88x2bu.Basic
import Rtl88x2bu.Lib.Tape
import Rtl88x2bu.Rx.Frame

/-!
# Socket buffers as the bridge extension handles them

The buffer is memory from `skb->data` on, with whatever lies behind the frame, and every access is
checked against the frame in a flag that is not in the source.
-/

namespace Rtl88x2bu.Bridge

open Rx (MacAddr)
open Tape

/-- An IPv4 address in network order. -/
abbrev IpAddr := Vector Byte 4

/-- The byte order of the host. -/
inductive ByteOrder
  | little
  | big
  deriving DecidableEq, Repr

/-- `struct sk_buff`, from `data` on. -/
structure SkBuff where
  data : ℕ → Byte
  len : ℕ
  tailroom : ℕ
  -- not in the source: no access so far was outside the frame as it was then
  inside : Bool

variable (skb : SkBuff)

/-- A frame of these bytes that nothing has looked at. -/
def SkBuff.ofBytes (bytes : List Byte) (tailroom : ℕ) : SkBuff :=
  ⟨image 0 bytes, bytes.length, tailroom, true⟩

/-- An access to the `n` bytes from `base` on. -/
def SkBuff.touch (base n : ℕ) : SkBuff :=
  { skb with inside := skb.inside && decide (n = 0 ∨ base + n ≤ skb.len) }

/-- `memcpy` into the frame. -/
def SkBuff.store (base : ℕ) (bytes : List Byte) : SkBuff :=
  { skb.touch base bytes.length with data := paste skb.data base bytes }

/-- `memmove` inside the frame. -/
def SkBuff.memmove (dst src n : ℕ) : SkBuff :=
  (skb.touch src n).store dst (window skb.data src n)

/-- `skb_put`: the frame becomes longer at its end. -/
def SkBuff.put (n : ℕ) : SkBuff :=
  { skb with len := skb.len + n, tailroom := skb.tailroom - n }

/-- `skb_trim` by `n` bytes. -/
def SkBuff.trim (n : ℕ) : SkBuff :=
  { skb with len := skb.len - n, tailroom := skb.tailroom + n }

/-- A 16-bit field as a number of the host. -/
def native16 (order : ByteOrder) (data : ℕ → Byte) (offset : ℕ) : ℕ :=
  match order with
  | .little => (data (offset + 1)).toNat * 256 + (data offset).toNat
  | .big => be16 data offset

/-- `htons`, as the bytes that are stored. -/
def htons (n : ℕ) : List Byte :=
  [UInt8.ofNat (n / 256), UInt8.ofNat n]

/-- The address of `k` bytes at an offset. -/
def addrAt (k : ℕ) (data : ℕ → Byte) (offset : ℕ) : Vector Byte k :=
  Vector.ofFn fun i => data (offset + i)

abbrev macAt (data : ℕ → Byte) (offset : ℕ) : MacAddr := addrAt 6 data offset

abbrev ipAt (data : ℕ → Byte) (offset : ℕ) : IpAddr := addrAt 4 data offset

def ethAlen : ℕ := 6
def ethHlen : ℕ := 14

section

variable (skb : SkBuff) (base n : ℕ) (bytes : List Byte)

@[simp] theorem touch_data : (skb.touch base n).data = skb.data := rfl
@[simp] theorem touch_len : (skb.touch base n).len = skb.len := rfl
@[simp] theorem touch_tailroom : (skb.touch base n).tailroom = skb.tailroom := rfl
@[simp] theorem store_data : (skb.store base bytes).data = paste skb.data base bytes := rfl
@[simp] theorem store_len : (skb.store base bytes).len = skb.len := rfl
@[simp] theorem put_data : (skb.put n).data = skb.data := rfl
@[simp] theorem put_len : (skb.put n).len = skb.len + n := rfl
@[simp] theorem put_inside : (skb.put n).inside = skb.inside := rfl
@[simp] theorem trim_data : (skb.trim n).data = skb.data := rfl
@[simp] theorem trim_len : (skb.trim n).len = skb.len - n := rfl
@[simp] theorem trim_inside : (skb.trim n).inside = skb.inside := rfl

@[simp]
theorem memmove_data (dst src : ℕ) :
    (skb.memmove dst src n).data = paste skb.data dst (window skb.data src n) :=
  rfl

@[simp] theorem memmove_len (dst src : ℕ) : (skb.memmove dst src n).len = skb.len := rfl

/-- The flag stays set exactly if the access is inside the frame. -/
@[simp]
theorem touch_inside :
    (skb.touch base n).inside = true ↔ skb.inside = true ∧ (n = 0 ∨ base + n ≤ skb.len) := by
  rw [SkBuff.touch, Bool.and_eq_true, decide_eq_true_iff]

@[simp]
theorem store_inside :
    (skb.store base bytes).inside = true ↔
      skb.inside = true ∧ (bytes.length = 0 ∨ base + bytes.length ≤ skb.len) :=
  touch_inside skb base bytes.length

@[simp]
theorem memmove_inside (dst src : ℕ) :
    (skb.memmove dst src n).inside = true ↔
      skb.inside = true ∧ (n = 0 ∨ src + n ≤ skb.len) ∧ (n = 0 ∨ dst + n ≤ skb.len) := by
  rw [SkBuff.memmove, store_inside, touch_inside, length_window, touch_len, and_assoc]

end

section

variable {skb : SkBuff} {base n : ℕ} {bytes : List Byte}

theorem inside_of_touch (inside : (skb.touch base (n + 1)).inside = true) :
    skb.inside = true ∧ base + (n + 1) ≤ skb.len := by
  simpa using inside

theorem inside_of_store (inside : (skb.store base bytes).inside = true) : skb.inside = true :=
  ((store_inside skb base bytes).mp inside).1

theorem touch_inside_of_le (fits : base + n ≤ skb.len) :
    (skb.touch base n).inside = true ↔ skb.inside = true := by
  rw [touch_inside]
  exact and_iff_left (.inr fits)

theorem store_inside_of_le (fits : base + bytes.length ≤ skb.len) :
    (skb.store base bytes).inside = true ↔ skb.inside = true :=
  touch_inside_of_le fits

end

section Fields

variable {data : ℕ → Byte} {offset base : ℕ} {bytes : List Byte}

@[simp] theorem length_htons (n : ℕ) : (htons n).length = 2 := rfl

/-- What `htons` stored is read back. -/
theorem be16_eq_of_holds {n : ℕ} (small : n < 65536) (holds : Holds data offset (htons n)) :
    be16 data offset = n := by
  obtain ⟨high, low, -⟩ := holds
  rw [be16, high, low, UInt8.toNat_ofNat', UInt8.toNat_ofNat']
  omega

theorem be16_paste_htons {n : ℕ} (small : n < 65536) (data : ℕ → Byte) (offset : ℕ) :
    be16 (paste data offset (htons n)) offset = n :=
  be16_eq_of_holds small (holds_paste data offset (htons n))

theorem be16_paste_of_le (apart : offset + 2 ≤ base ∨ base + bytes.length ≤ offset) :
    be16 (paste data base bytes) offset = be16 data offset := by
  rcases apart with before | after
  · rw [be16, be16, paste_of_lt (by omega), paste_of_lt (by omega)]
  · rw [be16, be16, paste_of_le (by omega), paste_of_le (by omega)]

theorem native16_paste_of_le {order : ByteOrder}
    (apart : offset + 2 ≤ base ∨ base + bytes.length ≤ offset) :
    native16 order (paste data base bytes) offset = native16 order data offset := by
  have kept (i : ℕ) (field : i < 2) : paste data base bytes (offset + i) = data (offset + i) := by
    rcases apart with before | after
    · exact paste_of_lt (by omega)
    · exact paste_of_le (by omega)
  have high : paste data base bytes offset = data offset := kept 0 (by decide)
  cases order with
  | little => rw [native16, native16, high, kept 1 (by decide)]
  | big => rw [native16, native16, be16, be16, high, kept 1 (by decide)]

end Fields

theorem addrAt_eq_of_holds {k : ℕ} {data : ℕ → Byte} {offset : ℕ} {addr : Vector Byte k}
    (holds : Holds data offset addr.toList) : addrAt k data offset = addr := by
  rw [holds_iff] at holds
  apply Vector.ext
  intro i inside
  rw [addrAt, Vector.getElem_ofFn]
  refine holds i addr[i] ?_
  rw [List.getElem?_eq_getElem (by rwa [Vector.length_toList]), Vector.getElem_toList]
  rfl

end Rtl88x2bu.Bridge
