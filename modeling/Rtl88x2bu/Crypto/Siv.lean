import Rtl88x2bu.Crypto.Header

/-!
# AES-SIV

`aes_siv_encrypt` and `aes_siv_decrypt` of `rust/aes_siv.rs`. OMAC1 is any function of the key and
the data, and AES-CTR the xor with any keystream. The size that `os_memdup` takes is an `u32`: the
bytes behind a copy that was cut are what the heap holds there.
-/

namespace Rtl88x2bu.Crypto

open List

/-- What SIV takes as given: OMAC1 of a key and data, and the keystream of a key and a nonce. -/
structure SivPrims where
  omac1 : List Byte → List Byte → Block
  keystream : List Byte → Block → ℕ → Block

variable (prims : SivPrims)

/-- The heap as `os_memdup` finds it: the sizes it can allocate and the bytes behind a copy. -/
structure Heap where
  alloc : ℕ → Bool
  behind : ℕ → Byte

variable (heap : Heap)

def dbl (pad : Block) : Block :=
  let shifted := toBlock
    (List.zipWith (fun byte next : Byte => (byte <<< 1) ||| (next >>> 7)) pad.toList
      (pad.toList.drop 1 ++ [0]))
  if getElem pad 0 (Nat.succ_pos 15) &&& 0x80 ≠ 0 then
    shifted.set 15 (getElem shifted 15 (Nat.lt_succ_self 15) ^^^ 0x87) (Nat.lt_succ_self 15)
  else shifted

def xorend (a : List Byte) (b : Block) : List Byte :=
  if a.length < 16 then a
  else
    let start := a.length - 16
    a.take start ++ List.zipWith (· ^^^ ·) (a.drop start) b.toList

def padBlock (addr : List Byte) : Block :=
  if addr.length < 16 then toBlock (addr ++ [0x80]) else toBlock addr

/-- The `elem_len` bytes from the copy on that `os_memdup(elem_ptr, elem_len as u32)` returns, if it
is not null. -/
def memdup (elem : List Byte) : Option (List Byte) :=
  let copied := elem.length % 2 ^ 32
  if heap.alloc copied then
    some (elem.take copied ++ (List.range (elem.length - copied)).map heap.behind)
  else none

def s2vStep (key : List Byte) (tmp : Block) (elem : List Byte) : Block :=
  xorBlock (dbl tmp) (prims.omac1 key elem)

/-- `aes_s2v`: `elems` are the strings before the last one, `last` is none if there is no string. -/
def aesS2v (key : List Byte) (elems : List (List Byte)) (last : Option (List Byte)) :
    Option Block :=
  match last with
  | none => some (prims.omac1 key
      ((Vector.replicate 16 0).set 15 1 (Nat.lt_succ_self 15) : Block).toList)
  | some last =>
    let tmp := elems.foldl (s2vStep prims key) (prims.omac1 key (List.replicate 16 0))
    if last.length ≥ 16 then (memdup heap last).map fun buf => prims.omac1 key (xorend buf tmp)
    else some (prims.omac1 key (xorBlock (dbl tmp) (padBlock last)).toList)

def maskIv (v : Block) : Block :=
  let v := v.set 8 (v[8] &&& 0x7f)
  v.set 12 (v[12] &&& 0x7f)

def sivKeyLen (keyLen : ℕ) : Bool :=
  keyLen = 32 ∨ keyLen = 48 ∨ keyLen = 64

def aesSivEncrypt (key : List Byte) (keyLen : ℕ) (pw : List Byte) (ads : List (List Byte)) :
    Option (List Byte) :=
  if ads.length > 5 ∨ !sivKeyLen keyLen then none
  else
    let k1 := key.take (keyLen / 2)
    let k2 := (key.drop (keyLen / 2)).take (keyLen / 2)
    (aesS2v prims heap k1 ads (some pw)).map fun v =>
      v.toList ++ xorStream (prims.keystream k2 (maskIv v)) pw

/-- `aes_siv_decrypt`: whether it returns 0, and what `out` holds. -/
def aesSivDecrypt (key : List Byte) (keyLen : ℕ) (ivCrypt : List Byte) (ads : List (List Byte)) :
    Option (Bool × List Byte) :=
  if ivCrypt.length < 16 ∨ ads.length > 5 ∨ !sivKeyLen keyLen then none
  else
    let k1 := key.take (keyLen / 2)
    let k2 := (key.drop (keyLen / 2)).take (keyLen / 2)
    let iv := toBlock (ivCrypt.take 16)
    let plain := xorStream (prims.keystream k2 (maskIv iv)) (ivCrypt.drop 16)
    let check := aesS2v prims heap k1 ads (some plain)
    some (check.any fun check => decide (check.toList = ivCrypt.take 16), plain)

section

variable {prims : SivPrims} {heap heap' : Heap} {key pw : List Byte} {keyLen : ℕ}
  {ads : List (List Byte)}

theorem toBlock_toList (block : Block) : toBlock block.toList = block := by
  apply Vector.toList_inj.mp
  change (block.toList ++ List.replicate 16 0).take 16 = block.toList
  exact take_left' Vector.length_toList

theorem memdup_of_lt (short : pw.length < 2 ^ 32) (given : heap.alloc pw.length = true) :
    memdup heap pw = some pw := by
  have whole : pw.length % 2 ^ 32 = pw.length := Nat.mod_eq_of_lt short
  simp only [memdup, whole, given, if_true, take_length, Nat.sub_self, range_zero, map_nil,
    append_nil]

variable (prims ads) in
theorem aesS2v_of_lt (short : pw.length < 2 ^ 32) : ∃ v, ∀ heap : Heap,
    heap.alloc pw.length = true → aesS2v prims heap key ads (some pw) = some v := by
  by_cases block : pw.length ≥ 16
  · exact ⟨_, fun heap given =>
      (if_pos block).trans (congrArg (Option.map _) (memdup_of_lt short given))⟩
  · exact ⟨_, fun heap _ => if_neg block⟩

variable (heap') in
theorem aesSivDecrypt_aesSivEncrypt (few : ads.length ≤ 5) (length : sivKeyLen keyLen = true)
    {v : Block} (computed : aesS2v prims heap (key.take (keyLen / 2)) ads (some pw) = some v) :
    ∃ sent, aesSivEncrypt prims heap key keyLen pw ads = some sent ∧
      aesSivDecrypt prims heap' key keyLen sent ads =
        some (decide (aesS2v prims heap' (key.take (keyLen / 2)) ads (some pw) = some v), pw) := by
  have accepts : ¬ (ads.length > 5 ∨ (!sivKeyLen keyLen) = true) := by
    simp only [length, Bool.not_true, Bool.false_eq_true, or_false]
    omega
  have vLen : v.toList.length = 16 := Vector.length_toList
  set crypt := xorStream (prims.keystream ((key.drop (keyLen / 2)).take (keyLen / 2)) (maskIv v)) pw
    with crypt_def
  refine ⟨v.toList ++ crypt, (if_neg accepts).trans (congrArg (Option.map _) computed), ?_⟩
  have long : ¬ ((v.toList ++ crypt).length < 16 ∨ ads.length > 5 ∨
      (!sivKeyLen keyLen) = true) := by
    rw [length_append]
    simp only [length, Bool.not_true, Bool.false_eq_true, or_false]
    omega
  have iv : (v.toList ++ crypt).take 16 = v.toList := take_left' vLen
  have text : (v.toList ++ crypt).drop 16 = crypt := drop_left' vLen
  -- the keystream starts at the synthetic IV that was sent, so the text comes back in any case
  rw [aesSivDecrypt, if_neg long]
  simp only [iv, text, toBlock_toList]
  simp only [crypt_def, xorStream_xorStream, Vector.toList_inj]
  cases aesS2v prims heap' (key.take (keyLen / 2)) ads (some pw) <;> simp

/-- The first byte behind a copy that was cut is one of the heap. -/
theorem memdup_cut (long : 2 ^ 32 ≤ pw.length) (b : Byte) :
    ∃ buf, memdup ⟨fun _ => true, fun _ => b⟩ pw = some buf ∧ buf.length = pw.length ∧
      byteAt buf (pw.length % 2 ^ 32) = b := by
  have cut : pw.length % 2 ^ 32 < 2 ^ 32 := Nat.mod_lt _ (by omega)
  have copied : (pw.take (pw.length % 2 ^ 32)).length = pw.length % 2 ^ 32 := by
    rw [length_take]
    omega
  refine ⟨_, rfl, ?_, ?_⟩
  · rw [length_append, copied, length_map, length_range]
    omega
  · obtain ⟨missing, count⟩ := Nat.exists_eq_add_one.mpr
      (show 0 < pw.length - pw.length % 2 ^ 32 by omega)
    rw [byteAt, getD_append_right _ _ _ _ copied.le, copied, Nat.sub_self, count,
      range_succ_eq_map, map_cons]
    rfl

theorem byteAt_xorend {i : ℕ} (a : List Byte) (b : Block) (before : i + 16 < a.length) :
    byteAt (xorend a b) i = byteAt a i := by
  have long : ¬ a.length < 16 := by omega
  have start : (a.take (a.length - 16)).length = a.length - 16 := by
    rw [length_take]
    omega
  rw [xorend, if_neg long, byteAt_append (by omega)]
  rw [byteAt, byteAt, getD_eq_getElem?_getD, List.getElem?_take_of_lt (by omega),
    ← getD_eq_getElem?_getD]

def showByte (i : ℕ) : SivPrims where
  omac1 _ data := Vector.replicate 16 (byteAt data i)
  keystream _ _ _ := Vector.replicate 16 0

theorem aesS2v_showByte (long : 2 ^ 32 ≤ pw.length) (b : Byte) :
    aesS2v (showByte (pw.length % 2 ^ 32)) ⟨fun _ => true, fun _ => b⟩ key ads (some pw) =
      some (Vector.replicate 16 b) := by
  obtain ⟨buf, copied, length, behind⟩ := memdup_cut long b
  have cut : pw.length % 2 ^ 32 < 2 ^ 32 := Nat.mod_lt _ (by omega)
  -- a plaintext of at least 16 bytes is the branch that copies the element
  have block : pw.length ≥ 16 := by omega
  rw [aesS2v, if_pos block, copied]
  refine congrArg (some <| Vector.replicate 16 ·) ((byteAt_xorend _ _ ?_).trans behind)
  omega

end

def SivRestores (heap' : Heap) (key : List Byte) (keyLen : ℕ) (pw : List Byte)
    (ads : List (List Byte)) : Prop :=
  ∃ sent, aesSivEncrypt prims heap key keyLen pw ads = some sent ∧
    aesSivDecrypt prims heap' key keyLen sent ads = some (true, pw)

theorem not_sivRestores {key pw : List Byte} {keyLen i : ℕ} {ads : List (List Byte)}
    (few : ads.length ≤ 5) (length : sivKeyLen keyLen = true) (long : 2 ^ 32 ≤ pw.length)
    (cut : pw.length % 2 ^ 32 = i) :
    ¬ SivRestores (showByte i) ⟨fun _ => true, fun _ => 0⟩ ⟨fun _ => true, fun _ => 1⟩ key keyLen pw
      ads := by
  subst cut
  rintro ⟨sent, sends, receives⟩
  obtain ⟨sent', sends', receives'⟩ :=
    aesSivDecrypt_aesSivEncrypt ⟨fun _ => true, fun _ => 1⟩ few length (aesS2v_showByte long 0)
  cases sends.symm.trans sends'
  rw [receives, aesS2v_showByte long, Option.some.injEq, Prod.mk.injEq] at receives'
  exact absurd receives'.1 (by decide)

/-- A plaintext comes back for every MAC, keystream and heap that can allocate it exactly if its
length is an `u32`; and decryption accepts an input exactly if it starts with the synthetic IV of
what it decrypts, which is computed unless the allocation fails. -/
theorem siv_restores_iff (keyLen : ℕ) (length : sivKeyLen keyLen = true) (key : List Byte)
    (ads : List (List Byte)) (few : ads.length ≤ 5) :
    (∀ pw, (∀ prims heap heap', heap.alloc (pw.length % 2 ^ 32) = true →
        heap'.alloc (pw.length % 2 ^ 32) = true →
        SivRestores prims heap heap' key keyLen pw ads) ↔ pw.length < 2 ^ 32) ∧
    ∀ prims heap ivCrypt, 16 ≤ ivCrypt.length → ∃ ok plain,
      aesSivDecrypt prims heap key keyLen ivCrypt ads = some (ok, plain) ∧
        (ok = true ↔ ∃ check, aesS2v prims heap (key.take (keyLen / 2)) ads (some plain) =
          some check ∧ ivCrypt.take 16 = check.toList) := by
  constructor
  · intro pw
    constructor
    · intro restores
      by_contra long
      exact not_sivRestores few length (by omega) rfl (restores _ _ _ rfl rfl)
    · intro short prims heap heap' given given'
      rw [Nat.mod_eq_of_lt short] at given given'
      obtain ⟨v, computed⟩ := aesS2v_of_lt prims ads short
      obtain ⟨sent, sends, receives⟩ :=
        aesSivDecrypt_aesSivEncrypt heap' few length (computed heap given)
      rw [decide_eq_true (computed heap' given')] at receives
      exact ⟨sent, sends, receives⟩
  · intro prims heap ivCrypt long
    have accepts : ¬ (ivCrypt.length < 16 ∨ ads.length > 5 ∨ (!sivKeyLen keyLen) = true) := by
      simp only [length, Bool.not_true, Bool.false_eq_true, or_false]
      omega
    refine ⟨_, _, if_neg accepts, ?_⟩
    simp only [Option.any_eq_true, decide_eq_true_iff]
    exact exists_congr fun check => and_congr_right fun _ => eq_comm

theorem siv_restores_blocks :
    SivRestores (showByte 3) ⟨(· < 64), fun _ => 0⟩ ⟨(· < 32), fun _ => 1⟩ (List.replicate 32 7) 32
      (List.range 20 |>.map UInt8.ofNat) [[1], []] :=
  ((siv_restores_iff 32 (by decide) (List.replicate 32 7) [[1], []] (by decide)).1 _).mpr
    (by decide) _ _ _ (by decide) (by decide)

theorem siv_long_plaintext_rejected :
    ¬ SivRestores (showByte 0) ⟨fun _ => true, fun _ => 0⟩ ⟨fun _ => true, fun _ => 1⟩
      (List.replicate 32 7) 32 (List.replicate (2 ^ 32) 5) [] := by
  refine not_sivRestores (by decide) (by decide) ?_ ?_
  · rw [length_replicate]
  · rw [length_replicate, Nat.mod_self]

end Rtl88x2bu.Crypto
