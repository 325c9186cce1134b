import Mathlib.Data.List.Basic
import Mathlib.Data.List.GetD
import Mathlib.Data.Nat.Notation

/-!
# The node of a connection

`struct node` of the echo server and the two functions the select loop calls on it. A
buffer is the memory behind `node->buffer`, whose contents are arbitrary when the node
is made; a socket call is represented by the bytes it transferred.
-/

namespace ComputerNetworks.Echo

/-- `Msg_size_max`, the size of a buffer. -/
abbrev msgSizeMax : ℕ := 65535

/-- The state of a connection; one position serves both directions. -/
structure Node where
  pendingData : Bool
  buffer : ℕ → UInt8
  addedPos : ℕ
  lenBuffer : ℕ

/-- `n` bytes of a buffer from position `pos` on. -/
def slice (buffer : ℕ → UInt8) (pos n : ℕ) : List UInt8 :=
  (List.range n).map fun i => buffer (pos + i)

/-- Write bytes into a buffer at position `pos`. -/
def writeAt (buffer : ℕ → UInt8) (pos : ℕ) (bytes : List UInt8) (i : ℕ) : UInt8 :=
  if i < pos then buffer i else bytes.getD (i - pos) (buffer i)

/-- `ntohs` of the first two bytes. -/
def messageLength (buffer : ℕ → UInt8) : ℕ := (buffer 0).toNat * 256 + (buffer 1).toNat

namespace Node

/-- `add`: a fresh node, with whatever is in the memory of its buffer. -/
def fresh (memory : ℕ → UInt8) : Node := ⟨false, memory, 0, 0⟩

/-- A node that waits for the first bytes of a message. -/
structure Reset (node : Node) : Prop where
  pendingData : node.pendingData = false
  addedPos : node.addedPos = 0
  lenBuffer : node.lenBuffer = 0

/-- `serverSending`, when `send` transmitted `cnt` bytes, and the bytes. -/
def serverSending (cnt : ℕ) (node : Node) : Node × List UInt8 :=
  if 0 < cnt then
    (if cnt = node.lenBuffer then { node with addedPos := 0, pendingData := false, lenBuffer := 0 }
      else { node with addedPos := cnt },
      slice node.buffer node.addedPos cnt)
  else (node, [])

/-- The most bytes that `recv` is asked for. -/
def recvRequest (node : Node) : ℕ := msgSizeMax - node.addedPos

/-- `serverRecieving`, when `recv` returned `bytes`. -/
def serverRecieving (bytes : List UInt8) (node : Node) : Node :=
  if 0 < bytes.length then
    let buffer := writeAt node.buffer node.addedPos bytes
    let lenBuffer := if node.lenBuffer = 0 then messageLength buffer else node.lenBuffer
    let addedPos := node.addedPos + bytes.length
    if addedPos = lenBuffer then ⟨true, buffer, 0, lenBuffer⟩
    else ⟨node.pendingData, buffer, addedPos, lenBuffer⟩
  else node

end Node

/-! ### Buffers -/

@[simp] theorem length_slice (buffer : ℕ → UInt8) (pos n : ℕ) : (slice buffer pos n).length = n := by
  simp [slice]

theorem slice_add (buffer : ℕ → UInt8) (pos m n : ℕ) :
    slice buffer pos (m + n) = slice buffer pos m ++ slice buffer (pos + m) n := by
  simp [slice, List.range_add, Nat.add_assoc]

/-- Bytes sent after the first `m` of a message go on with it exactly when they are those
that are due, and there are not too many. -/
theorem append_slice_isPrefix_iff {buffer : ℕ → UInt8} {m pos cnt n : ℕ} :
    slice buffer 0 m ++ slice buffer pos cnt <+: slice buffer 0 n ↔
      m + cnt ≤ n ∧ slice buffer pos cnt = slice buffer m cnt := by
  constructor
  · intro isPrefix
    have le : m + cnt ≤ n := by simpa using isPrefix.length_le
    obtain ⟨rest, rfl⟩ := Nat.exists_eq_add_of_le le
    rw [Nat.add_assoc, slice_add, Nat.zero_add, List.prefix_append_right_inj, slice_add] at isPrefix
    have due : slice buffer m cnt <+: slice buffer m cnt ++ slice buffer (m + cnt) rest :=
      List.prefix_append _ _
    have same := List.prefix_of_prefix_length_le isPrefix due (by simp)
    exact ⟨le, same.eq_of_length (by simp)⟩
  · rintro ⟨le, same⟩
    obtain ⟨rest, rfl⟩ := Nat.exists_eq_add_of_le le
    rw [same, slice_add buffer 0 (m + cnt), slice_add buffer 0 m, Nat.zero_add]
    exact List.prefix_append _ _

/-- A buffer that holds a list holds its elements. -/
theorem slice_eq_iff {buffer : ℕ → UInt8} {bytes : List UInt8} :
    slice buffer 0 bytes.length = bytes ↔ ∀ i (h : i < bytes.length), buffer i = bytes[i] := by
  constructor
  · intro same i h
    have read : (slice buffer 0 bytes.length)[i]? = bytes[i]? := by rw [same]
    simpa [slice, h] using read
  · intro holds
    apply List.ext_getElem
    · simp
    · intro i _ h
      simpa [slice] using holds i h

/-- Bytes written behind the first `k` extend what the buffer holds. -/
theorem slice_writeAt {buffer : ℕ → UInt8} {held bytes : List UInt8}
    (holds : slice buffer 0 held.length = held) :
    slice (writeAt buffer held.length bytes) 0 (held ++ bytes).length = held ++ bytes := by
  rw [slice_eq_iff] at holds ⊢
  intro i h
  rw [List.length_append] at h
  unfold writeAt
  split_ifs with old
  · rw [List.getElem_append_left old]
    exact holds i old
  · rw [List.getElem_append_right (Nat.le_of_not_lt old), List.getD_eq_getElem]

/-- A byte stream that is cut into pieces, none of them empty, is not empty. -/
theorem flatten_ne_nil {pieces : List (List UInt8)} (some_ : ∀ piece ∈ pieces, piece ≠ [])
    (more : pieces ≠ []) : pieces.flatten ≠ [] := by
  obtain ⟨piece, mem⟩ := List.exists_mem_of_ne_nil _ more
  exact List.flatten_ne_nil_iff.mpr ⟨piece, mem, some_ piece mem⟩

/-- The length of a message is written in its first two bytes. -/
theorem messageLength_eq {buffer : ℕ → UInt8} {held : List UInt8}
    (holds : slice buffer 0 held.length = held) (two : 2 ≤ held.length) :
    messageLength buffer = held[0].toNat * 256 + held[1].toNat := by
  rw [slice_eq_iff] at holds
  rw [messageLength, holds 0 (by omega), holds 1 (by omega)]

end ComputerNetworks.Echo
