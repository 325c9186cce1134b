import ComputerNetworks.Transfer.Util
import Mathlib.Data.List.Basic
import Mathlib.Algebra.Order.Group.Nat
import Mathlib.Algebra.Ring.Nat
import Mathlib.Data.Int.Notation

/-!
# Files, clocks, frames and acks

What the two programs exchange. A datagram is represented by its decoded header
fields and payload: the loops treat a datagram that fails the CRC test exactly
like an empty poll, so corruption is loss and the checksum itself is not part of
a frame.

A file is cut into chunks of `bufLen` bytes and a shorter last one, which is
empty when the size is a multiple of `bufLen`.
-/

namespace ComputerNetworks.Transfer

/-- A reading of `gettimeofday`. -/
structure Timeval where
  sec : ℕ
  usec : ℕ
  deriving DecidableEq, Repr

namespace Timeval

/-- Microseconds since the epoch. -/
def micros (tv : Timeval) : ℕ := tv.sec * 1000000 + tv.usec

/-- Conversion of a 64-bit value to `int`. -/
def toInt32 (x : ℤ) : ℤ := Int.bmod x (2 ^ 32)

/-- The `int` microseconds from an earlier reading, itself stored as two `int`s. -/
def elapsed (tv : Timeval) (sec usec : ℤ) : ℤ :=
  toInt32 (((tv.sec : ℤ) - sec) * 1000000 + ((tv.usec : ℤ) - usec))

end Timeval

/-- The header fields and payload of a datagram from `sendfile`: the number at
offset 2, the type at 6, the packet id at 8 and the bytes from 12 on. -/
structure Frame where
  seqNum : ℕ
  type : ℕ
  packetId : ℕ
  payload : List UInt8
  deriving DecidableEq

/-- An ack of `recvfile`, with the clock reading it was stamped with. -/
structure Ack where
  ackNum : ℕ
  type : ℕ
  tvSec : ℕ
  tvUsec : ℕ
  deriving DecidableEq

namespace Ack

/-- `tmp_time`: the ack's microseconds in a `uint32_t`. -/
def time (ack : Ack) : ℕ := (ack.tvUsec + 1000000 * ack.tvSec) % 2 ^ 32

/-- The ack numbered `ackNum`, stamped with the clock reading `tv`. -/
def stamp (ackNum : ℕ) (tv : Timeval) : Ack := ⟨ackNum, 1, tv.sec % 2 ^ 32, tv.usec % 2 ^ 32⟩

/-- The ack that `recvfile` builds when its window starts at `laSeq`. -/
def build (laSeq : ℕ) (tv : Timeval) : Ack := stamp (mod ((laSeq : ℤ) - 1) seqLen).toNat tv

@[simp] theorem stamp_time (ackNum : ℕ) (tv : Timeval) :
    (stamp ackNum tv).time = tv.micros % 2 ^ 32 := by
  simp only [time, stamp, Timeval.micros]
  omega

@[simp] theorem build_time (laSeq : ℕ) (tv : Timeval) :
    (build laSeq tv).time = tv.micros % 2 ^ 32 :=
  stamp_time _ tv

@[simp] theorem build_ackNum (base : ℕ) (tv : Timeval) :
    (build (base % seqLen) tv).ackNum = (base + 15) % seqLen :=
  mod_pred base

end Ack

/-- A regular file: `fread` is short only at its end. -/
structure RegularFile where
  size : ℕ
  byte : ℕ → UInt8

namespace RegularFile

variable (file : RegularFile)

/-- The whole contents. -/
def bytes : List UInt8 := (List.range file.size).map file.byte

/-- The number of bytes `fread` returns for `n` bytes at offset `pos`. -/
def readLen (pos n : ℕ) : ℕ := min n (file.size - pos)

/-- The bytes `fread` returns for `n` bytes at offset `pos`. -/
def read (pos n : ℕ) : List UInt8 :=
  (List.range (file.readLen pos n)).map fun i => file.byte (pos + i)

/-- The `j`-th chunk. -/
def chunk (j : ℕ) : List UInt8 := file.read (j * bufLen) bufLen

/-- The index of the last chunk, the first one shorter than `bufLen`. -/
def lastChunk : ℕ := file.size / bufLen

/-- The chunks a transfer of the file carries. -/
def chunks : List (List UInt8) := (List.range (file.lastChunk + 1)).map file.chunk

@[simp] theorem length_read (pos n : ℕ) : (file.read pos n).length = file.readLen pos n := by
  simp [read]

theorem length_chunk_le (j : ℕ) : (file.chunk j).length ≤ bufLen := by
  rw [chunk, length_read]
  exact min_le_left _ _

theorem read_eq (pos n : ℕ) : file.read pos n = (file.bytes.drop pos).take n := by
  apply List.ext_getElem
  · simp [bytes, readLen]
  · intro i hi hi'
    simp [read, bytes]

theorem readLen_eq_bufLen_iff {j : ℕ} :
    file.readLen (j * bufLen) bufLen < bufLen ↔ file.lastChunk ≤ j := by
  simp only [readLen, lastChunk, bufLen]
  omega

/-- The chunks before the `k`-th are the first `k * bufLen` bytes. -/
theorem flatten_chunks (k : ℕ) :
    ((List.range k).map file.chunk).flatten = file.bytes.take (k * bufLen) := by
  induction k with
  | zero => simp
  | succ k ih =>
    rw [List.range_succ, List.map_append, List.flatten_append, ih, Nat.succ_mul, List.take_add]
    simp [chunk, read_eq]

/-- The chunks make up the file. -/
theorem chunks_flatten : file.chunks.flatten = file.bytes := by
  rw [chunks, flatten_chunks]
  apply List.take_of_length_le
  simp only [bytes, List.length_map, List.length_range, lastChunk, bufLen]
  omega

theorem take_chunks {k : ℕ} (hk : k ≤ file.lastChunk + 1) :
    file.chunks.take k = (List.range k).map file.chunk := by
  rw [chunks, ← List.map_take, List.take_range, min_eq_left hk]

end RegularFile

end ComputerNetworks.Transfer
