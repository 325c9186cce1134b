import Mathlib.Data.Nat.Notation
import Mathlib.Logic.Function.Basic
import Mathlib.Tactic.SplitIfs

/-!
# Byte buffers with 16-bit numbers

A block of allocated bytes. A write outside the block is remembered for good; 16-bit
numbers are stored with the high byte first, at even offsets.
-/

namespace ComputerNetworks.Lib

/-- A block of `size` bytes. `overrun` says that a write has missed it. -/
structure Buffer where
  size : ℕ
  byte : ℕ → UInt8
  overrun : Bool

namespace Buffer

/-- A fresh block; `junk` is what the memory held before. -/
def alloc (size : ℕ) (junk : ℕ → UInt8) : Buffer := ⟨size, junk, false⟩

/-- Write a byte. -/
def store8 (i : ℕ) (x : UInt8) (b : Buffer) : Buffer :=
  if i < b.size then { b with byte := Function.update b.byte i x } else { b with overrun := true }

/-- Write the `k`-th 16-bit number. -/
def store16 (k : ℕ) (x : UInt16) (b : Buffer) : Buffer :=
  (b.store8 (2 * k) (UInt8.ofNat (x.toNat / 256))).store8 (2 * k + 1) (UInt8.ofNat (x.toNat % 256))

/-- Read the `k`-th 16-bit number. -/
def load16 (b : Buffer) (k : ℕ) : UInt16 :=
  UInt16.ofNat (256 * (b.byte (2 * k)).toNat + (b.byte (2 * k + 1)).toNat)

variable (b : Buffer) {i k l : ℕ} {x : UInt8} {y : UInt16}

@[simp] theorem store8_size : (b.store8 i x).size = b.size := by
  unfold store8
  split_ifs <;> rfl

@[simp] theorem store16_size : (b.store16 k y).size = b.size := by simp [store16]

/-- A write inside the block. -/
theorem store8_of_lt (inside : i < b.size) :
    b.store8 i x = { b with byte := Function.update b.byte i x } := if_pos inside

theorem store16_of_lt (inside : 2 * k + 1 < b.size) :
    b.store16 k y = { b with
      byte := Function.update (Function.update b.byte (2 * k) (UInt8.ofNat (y.toNat / 256)))
        (2 * k + 1) (UInt8.ofNat (y.toNat % 256)) } := by
  unfold store16
  rw [store8_of_lt b (by omega)]
  exact store8_of_lt _ inside

/-- Once a write has missed the block, that stays known. -/
theorem store8_overrun (missed : b.overrun = true) : (b.store8 i x).overrun = true := by
  unfold store8
  split_ifs
  · exact missed
  · rfl

theorem store16_overrun (missed : b.overrun = true) : (b.store16 k y).overrun = true :=
  store8_overrun _ (store8_overrun _ missed)

/-- A 16-bit number whose last byte is outside misses the block. -/
theorem store16_overrun_of_le (outside : b.size ≤ 2 * k + 1) : (b.store16 k y).overrun = true := by
  unfold store16
  generalize last : b.store8 (2 * k) (UInt8.ofNat (y.toNat / 256)) = c
  have size : c.size = b.size := by rw [← last, store8_size]
  unfold store8
  rw [if_neg (by omega)]

/-- What was written is read back. -/
theorem load16_store16_self (inside : 2 * k + 1 < b.size) : (b.store16 k y).load16 k = y := by
  have apart : 2 * k ≠ 2 * k + 1 := by omega
  have small := y.toNat_lt
  rw [store16_of_lt b inside]
  unfold load16
  dsimp only
  rw [Function.update_self, Function.update_of_ne apart, Function.update_self]
  apply UInt16.toNat.inj
  simp only [UInt8.toNat_ofNat', UInt16.toNat_ofNat']
  omega

/-- The other numbers stay. -/
theorem load16_store16_of_ne (inside : 2 * k + 1 < b.size) (other : l ≠ k) :
    (b.store16 k y).load16 l = b.load16 l := by
  rw [store16_of_lt b inside]
  unfold load16
  dsimp only
  rw [Function.update_of_ne (by omega), Function.update_of_ne (by omega),
    Function.update_of_ne (by omega), Function.update_of_ne (by omega)]

end Buffer

end ComputerNetworks.Lib
