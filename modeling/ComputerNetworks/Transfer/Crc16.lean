import ComputerNetworks.Lib.ShiftRegister
import Mathlib.Data.Nat.Bitwise

/-!
# The frame check

`calc_crc16` shifts the bits of a block into a register, sixteen zeros after them, and
returns the register reversed. A pointer is represented by the memory from its position
on, so that what lies behind the block is there to be read.
-/

namespace ComputerNetworks.Transfer

open Lib Polynomial

/-- `CRC16` -/
abbrev crc16 : BitVec 16 := 0x8005

/-- `(*data >> bitsRead) & 1`; the `char` is promoted to an `int` with its sign. -/
def dataBit (byte : UInt8) (bitsRead : ℕ) : BitVec 32 :=
  (byte.toBitVec.signExtend 32).sshiftRight bitsRead &&& 1

/-- The update of `out` in a round of the first two loops, which or `bit` or nothing in. -/
def clock (bit out : BitVec 16) : BitVec 16 :=
  let bitFlag := out >>> 15
  let out := out <<< 1 ||| bit
  if bitFlag ≠ 0 then out ^^^ crc16 else out

/-- The variables of the first loop. -/
structure Cursor where
  out : BitVec 16
  bitsRead : ℕ
  data : ℕ → UInt8
  size : BitVec 16

namespace Cursor

/-- One round: consume a bit, and move on to the next byte after the eighth. -/
def next (c : Cursor) : Cursor :=
  let out := clock ((dataBit (c.data 0) c.bitsRead).setWidth 16) c.out
  let bitsRead := c.bitsRead + 1
  if bitsRead > 7 then ⟨out, 0, fun i => c.data (i + 1), c.size - 1⟩
  else ⟨out, bitsRead, c.data, c.size⟩

/-- `while (size > 0)` -/
def loop (c : Cursor) : Cursor :=
  if 0 < c.size then c.next.loop else c
termination_by (c.size.toNat, 8 - c.bitsRead)
decreasing_by
  rename_i more
  unfold next
  dsimp only
  split_ifs with last
  · exact .left _ _ (by bv_omega)
  · exact .right _ (by dsimp only; omega)

end Cursor

/-- The second loop, with `n` rounds to go. -/
def flush : ℕ → BitVec 16 → BitVec 16
  | 0, out => out
  | n + 1, out => flush n (clock 0 out)

/-- The third loop: `i` runs down the bits of `out` and `j` up the bits of `crc`. -/
def reverseLoop (out : BitVec 16) (i j : ℕ) (crc : BitVec 16) : BitVec 16 :=
  if i ≠ 0 then
    reverseLoop out (i >>> 1) (j <<< 1)
      (if i &&& out.toNat ≠ 0 then crc ||| BitVec.ofNat 16 j else crc)
  else crc
termination_by i
decreasing_by
  rw [Nat.shiftRight_one]
  omega

/-- `calc_crc16` -/
def calcCrc16 (data : ℕ → UInt8) (size : BitVec 16) : BitVec 16 :=
  reverseLoop (flush 16 (Cursor.loop ⟨0, 0, data, size⟩).out) 0x8000 1 0

/-! ### The loops -/

/-- The bits of a byte in the order in which they are consumed. -/
def byteBits (byte : UInt8) : List Bool := (List.range 8).map byte.toBitVec.getLsbD

/-- The bits of a block in the order in which they are consumed. -/
def bitsOf (bytes : List UInt8) : List Bool := bytes.flatMap byteBits

/-- The first `n` bytes at a pointer. -/
def block (data : ℕ → UInt8) (n : ℕ) : List UInt8 := (List.range n).map data

@[simp] theorem length_byteBits (byte : UInt8) : (byteBits byte).length = 8 := rfl

@[simp] theorem length_block (data : ℕ → UInt8) (n : ℕ) : (block data n).length = n := by
  simp [block]

@[simp] theorem length_bitsOf (bytes : List UInt8) : (bitsOf bytes).length = 8 * bytes.length := by
  simp [bitsOf, mul_comm]

theorem bitsOf_cons (byte : UInt8) (bytes : List UInt8) :
    bitsOf (byte :: bytes) = byteBits byte ++ bitsOf bytes := List.flatMap_cons

theorem bitsOf_append (front back : List UInt8) :
    bitsOf (front ++ back) = bitsOf front ++ bitsOf back := List.flatMap_append

theorem block_succ (data : ℕ → UInt8) (n : ℕ) :
    block data (n + 1) = data 0 :: block (fun i => data (i + 1)) n := by
  simp [block, List.range_succ_eq_map]

/-- The sign of a `char` is never shifted down to the lowest bit. -/
theorem setWidth_dataBit (byte : UInt8) {k : ℕ} (hk : k < 8) :
    (dataBit byte k).setWidth 16 = (BitVec.ofBool (byte.toBitVec.getLsbD k)).setWidth 16 := by
  have low : ((byte.toBitVec.signExtend 32).sshiftRight k).getLsbD 0 = byte.toBitVec.getLsbD k := by
    rw [BitVec.getLsbD_sshiftRight, BitVec.getLsbD_signExtend]
    simp [hk, show k < 32 by omega]
  unfold dataBit
  rw [show (1 : BitVec 32) = 1#32 from rfl, BitVec.and_one_eq_setWidth_ofBool_getLsbD, low,
    BitVec.setWidth_setWidth_of_le _ (by decide)]

/-- A round of the first two loops is a clock of the shift register. -/
theorem clock_eq (b : Bool) (out : BitVec 16) :
    clock ((BitVec.ofBool b).setWidth 16) out = shiftIn crc16 out b := by
  have shifted : out <<< 1 ||| (BitVec.ofBool b).setWidth 16 = out.shiftConcat b := by
    ext i hi
    rw [BitVec.getElem_shiftConcat]
    cases i with
    | zero => simp
    | succ i => simp
  have flag : out >>> 15 ≠ 0 ↔ out.msb = true := by
    rw [BitVec.msb_eq_decide, decide_eq_true_eq]
    bv_omega
  unfold clock shiftIn
  simp only [shifted, flag]

/-- The bits still to be consumed. -/
def Cursor.rest (c : Cursor) : List Bool := (bitsOf (block c.data c.size.toNat)).drop c.bitsRead

/-- The bits of a block from the `k`-th of its first byte on. -/
theorem drop_bitsOf_block (data : ℕ → UInt8) (n : ℕ) {k : ℕ} (hk : k ≤ 8) :
    (bitsOf (block data (n + 1))).drop k =
      (byteBits (data 0)).drop k ++ bitsOf (block (fun i => data (i + 1)) n) := by
  rw [block_succ, bitsOf_cons, List.drop_append_of_le_length (by simpa using hk)]

/-- A round consumes one bit. -/
theorem Cursor.next_spec (c : Cursor) (more : 0 < c.size) (inside : c.bitsRead < 8) :
    ∃ b, c.rest = b :: c.next.rest ∧ c.next.out = shiftIn crc16 c.out b ∧
      c.next.bitsRead < 8 := by
  obtain ⟨n, size⟩ : ∃ n, c.size.toNat = n + 1 := Nat.exists_eq_add_one.mpr (by bv_omega)
  have bit : (byteBits (c.data 0)).drop c.bitsRead =
      (c.data 0).toBitVec.getLsbD c.bitsRead :: (byteBits (c.data 0)).drop (c.bitsRead + 1) := by
    rw [List.drop_eq_getElem_cons (by simpa using inside)]
    simp [byteBits]
  refine ⟨(c.data 0).toBitVec.getLsbD c.bitsRead, ?_, ?_, ?_⟩
  · rw [rest, size, drop_bitsOf_block _ _ inside.le, bit, List.cons_append]
    congr 1
    unfold next rest
    dsimp only
    split_ifs with last
    -- after the eighth bit the rest starts at the next byte
    · have size' : (c.size - 1).toNat = n := by bv_omega
      rw [List.drop_eq_nil_of_le (by rw [length_byteBits]; omega), List.nil_append, size',
        List.drop_zero]
    · rw [size]
      exact (drop_bitsOf_block _ _ inside).symm
  · rw [← clock_eq, ← setWidth_dataBit _ inside]
    unfold next
    dsimp only
    split_ifs <;> rfl
  · unfold next
    dsimp only
    split_ifs
    · exact Nat.succ_pos 7
    · dsimp only
      omega

/-- The first loop feeds the register all bits that are left. -/
theorem Cursor.loop_out (c : Cursor) (inside : c.bitsRead < 8) :
    c.loop.out = feed crc16 c.out c.rest := by
  induction c using Cursor.loop.induct with
  | case1 c more ih =>
    obtain ⟨b, rest, out, inside'⟩ := c.next_spec more inside
    rw [Cursor.loop, if_pos more, ih inside', rest, out]
    rfl
  | case2 c done =>
    have size : c.size.toNat = 0 := by bv_omega
    rw [Cursor.loop, if_neg done]
    simp [rest, size, block, bitsOf, feed]

/-- The second loop feeds it zeros. -/
theorem flush_eq (n : ℕ) (out : BitVec 16) :
    flush n out = feed crc16 out (List.replicate n false) := by
  induction n generalizing out with
  | zero => rfl
  | succ n ih =>
    rw [flush, ih, List.replicate_succ]
    exact congrArg (feed crc16 · _) (clock_eq false out)

/-- The third loop, with the bits from `k` down to go, copies each of them to its mirror
image. -/
theorem getLsbD_reverseLoop (out crc : BitVec 16) {k : ℕ} (hk : k < 16) (t : ℕ) :
    (reverseLoop out (2 ^ k) (2 ^ (15 - k)) crc).getLsbD t =
      (crc.getLsbD t || (decide (15 - k ≤ t ∧ t < 16) && out.getLsbD (15 - t))) := by
  -- a round sets the bit `15 - k` to the bit `k` of `out`
  have round : ∀ (crc : BitVec 16) (k : ℕ), k < 16 →
      (if 2 ^ k &&& out.toNat ≠ 0 then crc ||| BitVec.ofNat 16 (2 ^ (15 - k)) else crc).getLsbD t =
        (crc.getLsbD t || (decide (15 - k = t) && out.getLsbD k)) := by
    intro crc k hk
    have tested : 2 ^ k &&& out.toNat ≠ 0 ↔ out.getLsbD k = true := by
      rw [Nat.and_comm, Nat.and_two_pow]
      simp [BitVec.getLsbD]
    simp only [tested]
    cases out.getLsbD k with
    | false => simp
    | true =>
      rw [if_pos rfl, BitVec.getLsbD_or, BitVec.getLsbD_ofNat, Nat.testBit_two_pow]
      by_cases here : 15 - k = t
      · simp [here, show t < 16 by omega]
      · simp [here]
  induction k generalizing crc with
  | zero =>
    rw [reverseLoop, if_pos (by decide), reverseLoop, if_neg (by decide)]
    refine (round crc 0 hk).trans ?_
    by_cases last : 15 = t
    · subst last
      rfl
    · simp [last, show ¬ (15 ≤ t ∧ t < 16) by omega]
  | succ k ih =>
    have down : 2 ^ (k + 1) >>> 1 = 2 ^ k := by
      rw [Nat.shiftRight_one, pow_succ, Nat.mul_div_cancel _ (by decide)]
    have up : 2 ^ (15 - (k + 1)) <<< 1 = 2 ^ (15 - k) := by
      rw [Nat.shiftLeft_eq, ← pow_succ, show 15 - (k + 1) + 1 = 15 - k by omega]
    rw [reverseLoop, if_pos (by positivity), down, up, ih _ (by omega), round crc (k + 1) hk,
      Bool.or_assoc]
    congr 1
    by_cases here : 15 - (k + 1) = t
    · simp [here, show ¬ 15 - k ≤ t by omega, show t < 16 by omega, show 15 - t = k + 1 by omega]
    · rw [decide_eq_false here, Bool.false_and, Bool.false_or]
      congr 2
      rw [eq_iff_iff]
      omega

theorem reverseLoop_eq (out : BitVec 16) : reverseLoop out 0x8000 1 0 = out.reverse := by
  ext t ht
  rw [← BitVec.getLsbD_eq_getElem, ← BitVec.getLsbD_eq_getElem, BitVec.getLsbD_reverse]
  refine (getLsbD_reverseLoop out 0 (k := 15) (by decide) t).trans ?_
  simp [BitVec.getMsbD, ht]

/-- `calc_crc16` returns the check of the block, reversed. -/
theorem calcCrc16_eq (data : ℕ → UInt8) (size : BitVec 16) :
    calcCrc16 data size = (check crc16 (bitsOf (block data size.toNat))).reverse := by
  rw [calcCrc16, reverseLoop_eq, flush_eq, Cursor.loop_out _ (Nat.succ_pos 7)]
  rfl

/-! ### The remainder -/

/-- The generator of `CRC16`. -/
theorem generator_crc16 : generator crc16 = X ^ 16 + X ^ 15 + X ^ 2 + 1 := by
  have bits : registerBits crc16 = [true, false, false, false, false, false, false, false, false,
      false, false, false, false, true, false, true] := by decide
  rw [generator, regPoly, bits]
  simp [bitPoly]
  ring

/-- Memory that begins with the given bytes. -/
def overlay (bytes : List UInt8) (memory : ℕ → UInt8) (i : ℕ) : UInt8 := bytes.getD i (memory i)

theorem block_overlay (bytes : List UInt8) (memory : ℕ → UInt8) :
    block (overlay bytes memory) bytes.length = bytes := by
  apply List.ext_getElem
  · simp
  · intro i _ hi
    simp [block, overlay, hi]

/-- `calc_crc16` divides: it returns the reversal of the remainder of `M * X ^ 16` modulo
`X ^ 16 + X ^ 15 + X ^ 2 + 1`, where the coefficients of `M` are the bits of the block. -/
theorem calcCrc16_remainder (bytes : List UInt8) (memory : ℕ → UInt8)
    (short : bytes.length ≤ 65535) :
    ∃ out : BitVec 16,
      regPoly out = (bitPoly (bitsOf bytes) * X ^ 16) %ₘ (X ^ 16 + X ^ 15 + X ^ 2 + 1) ∧
        calcCrc16 (overlay bytes memory) (BitVec.ofNat 16 bytes.length) = out.reverse := by
  have size : (BitVec.ofNat 16 bytes.length).toNat = bytes.length := by
    rw [BitVec.toNat_ofNat, Nat.mod_eq_of_lt (by omega)]
  refine ⟨check crc16 (bitsOf bytes), ?_, ?_⟩
  · rw [← generator_crc16]
    exact regPoly_check (by decide) _
  · rw [calcCrc16_eq, size, block_overlay]

/-- The digits from 1 to 9. -/
theorem calcCrc16_remainder_digits :
    ∃ out : BitVec 16,
      regPoly out = (bitPoly (bitsOf [49, 50, 51, 52, 53, 54, 55, 56, 57]) * X ^ 16) %ₘ
        (X ^ 16 + X ^ 15 + X ^ 2 + 1) ∧
        calcCrc16 (overlay [49, 50, 51, 52, 53, 54, 55, 56, 57] fun _ => 0) (BitVec.ofNat 16 9) =
          out.reverse ∧ out.reverse = 0xBB3D := by
  have sum : calcCrc16 (overlay [49, 50, 51, 52, 53, 54, 55, 56, 57] fun _ => 0)
      (BitVec.ofNat 16 9) = 0xBB3D := by
    rw [calcCrc16_eq]
    decide +kernel
  obtain ⟨out, remainder, same⟩ := calcCrc16_remainder [49, 50, 51, 52, 53, 54, 55, 56, 57]
    (fun _ => 0) (by decide)
  exact ⟨out, remainder, same, same.symm.trans sum⟩

end ComputerNetworks.Transfer
