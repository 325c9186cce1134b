import ComputerNetworks.Echo.Node
import ComputerNetworks.Lib.Runs

/-!
# Partial sends

A complete message is echoed by calls of `serverSending`, each of which transmits some of
the bytes it requests. The first call starts at the beginning and the second goes on where
the first ended, but a later one starts at the length of the one before it, and no call
but the first resets the node.
-/

namespace ComputerNetworks.Echo

open Lib

namespace Node

/-- A message is complete, and nothing of it has been sent. -/
structure Complete (node : Node) : Prop where
  pendingData : node.pendingData = true
  addedPos : node.addedPos = 0
  lenBuffer : 1 ≤ node.lenBuffer

/-- The message in the buffer. -/
def message (node : Node) : List UInt8 := slice node.buffer 0 node.lenBuffer

end Node

/-- A node, with all the bytes that `serverSending` has transmitted. -/
structure Sending where
  node : Node
  sent : List UInt8

namespace Sending

/-- Nothing has been sent. -/
def start (node : Node) : Sending := ⟨node, []⟩

/-- A call of `serverSending` that transmits `cnt` bytes of those it requests. -/
def step (s : Sending) (cnt : ℕ) : Option Sending :=
  if 0 < cnt ∧ cnt ≤ s.node.lenBuffer - s.node.addedPos then
    let next := s.node.serverSending cnt
    some ⟨next.1, s.sent ++ next.2⟩
  else none

/-- What was sent begins the message, and the node is reset when it is the message. -/
structure Law (message : List UInt8) (s : Sending) : Prop where
  isPrefix : s.sent <+: message
  reset : s.node.Reset ↔ s.sent.length = message.length

/-- The call is the first one, or it does not end the message and the bytes from its
position on are those that are due. -/
def OnTime (message : List UInt8) (s : Sending) (cnt : ℕ) : Prop :=
  s.sent = [] ∨ s.sent.length + cnt < message.length ∧
    slice s.node.buffer s.node.addedPos cnt = slice s.node.buffer s.sent.length cnt

/-- Between two calls, as long as what was sent begins the message of length `n`. -/
inductive Going (buffer : ℕ → UInt8) (n : ℕ) (s : Sending) : Prop
  /-- The first `m` bytes have been sent. -/
  | sending (m : ℕ) (more : m < n) (pendingData : s.node.pendingData = true)
      (memory : s.node.buffer = buffer) (lenBuffer : s.node.lenBuffer = n)
      (sent : s.sent = slice buffer 0 m) (first : s.node.addedPos = 0 ↔ m = 0)
  /-- The message has been sent. -/
  | done (reset : s.node.Reset)

variable {buffer : ℕ → UInt8} {n cnt : ℕ} {node : Node} {s t : Sending}

theorem start_going (complete : node.Complete) :
    Going node.buffer node.lenBuffer (start node) := by
  refine .sending 0 complete.lenBuffer complete.pendingData rfl rfl rfl ?_
  exact iff_of_true complete.addedPos rfl

theorem not_reset (pendingData : node.pendingData = true) : ¬ node.Reset := by
  intro reset
  rw [reset.pendingData] at pendingData
  contradiction

/-- The first call keeps the law. -/
theorem first_step (complete : s.node.Complete) (nothing : s.sent = [])
    (next : s.step cnt = some t) :
    Law s.node.message t ∧ Going s.node.buffer s.node.lenBuffer t := by
  simp only [step, Option.ite_none_right_eq_some, Option.some.injEq] at next
  obtain ⟨⟨positive, requested⟩, rfl⟩ := next
  rw [complete.addedPos, Nat.sub_zero] at requested
  unfold Node.serverSending Node.message
  rw [if_pos positive, complete.addedPos, nothing]
  by_cases whole : cnt = s.node.lenBuffer
  · rw [if_pos whole, whole]
    have reset : Node.Reset { s.node with addedPos := 0, pendingData := false, lenBuffer := 0 } :=
      ⟨rfl, rfl, rfl⟩
    refine ⟨⟨List.prefix_refl _, ?_⟩, .done reset⟩
    exact iff_of_true reset rfl
  · rw [if_neg whole]
    constructor
    · constructor
      · obtain ⟨rest, split⟩ := Nat.exists_eq_add_of_le requested
        rw [split, slice_add]
        exact List.prefix_append _ _
      · apply iff_of_false
        · exact not_reset complete.pendingData
        · simpa using whole
    · have more : cnt < s.node.lenBuffer := by omega
      exact .sending cnt more complete.pendingData rfl rfl rfl Iff.rfl

/-- A later call starts behind the first byte, so it does not request enough to reset the
node. -/
theorem later_step (behind : s.node.addedPos ≠ 0) (next : s.step cnt = some t) :
    0 < cnt ∧ t = ⟨{ s.node with addedPos := cnt },
      s.sent ++ slice s.node.buffer s.node.addedPos cnt⟩ := by
  simp only [step, Option.ite_none_right_eq_some, Option.some.injEq] at next
  obtain ⟨⟨positive, requested⟩, rfl⟩ := next
  have less : cnt ≠ s.node.lenBuffer := by omega
  rw [Node.serverSending, if_pos positive, if_neg less]
  exact ⟨positive, rfl⟩

/-- A call keeps the law exactly when it is on time. -/
theorem Going.step (h : Going buffer n s) (next : s.step cnt = some t) :
    (Law (slice buffer 0 n) t ↔ OnTime (slice buffer 0 n) s cnt) ∧
      (OnTime (slice buffer 0 n) s cnt → Going buffer n t) := by
  cases h with
  | sending m more pendingData memory lenBuffer sent first =>
    subst memory lenBuffer
    by_cases start : m = 0
    · have nothing : s.sent = [] := by
        rw [sent, start]
        rfl
      obtain ⟨law, going⟩ := first_step ⟨pendingData, first.mpr start, by omega⟩ nothing next
      exact ⟨iff_of_true law (.inl nothing), fun _ => going⟩
    · obtain ⟨positive, rfl⟩ := later_step (mt first.mp start) next
      have some_ : s.sent ≠ [] := by
        rw [← List.length_pos_iff, sent, length_slice]
        omega
      have onTime : OnTime (slice s.node.buffer 0 s.node.lenBuffer) s cnt ↔
          m + cnt < s.node.lenBuffer ∧
            slice s.node.buffer s.node.addedPos cnt = slice s.node.buffer m cnt := by
        unfold OnTime
        rw [or_iff_right some_, sent, length_slice, length_slice]
      rw [onTime]
      constructor
      · constructor
        · intro law
          have begins := law.isPrefix
          rw [sent, append_slice_isPrefix_iff] at begins
          -- the node is not reset, so the message must not end here
          have ends := mt law.reset.mpr (not_reset pendingData)
          simp only [sent, List.length_append, length_slice] at ends
          exact ⟨by omega, begins.2⟩
        · rintro ⟨less, due⟩
          constructor
          · rw [sent, append_slice_isPrefix_iff]
            exact ⟨Nat.le_of_lt less, due⟩
          · apply iff_of_false
            · exact not_reset pendingData
            · simp only [sent, List.length_append, length_slice]
              omega
      · rintro ⟨less, due⟩
        refine .sending (m + cnt) less pendingData rfl rfl ?_ ?_
        · rw [sent, due, slice_add, Nat.zero_add]
        · exact iff_of_false (Nat.ne_of_gt positive) (by omega)
  | done reset =>
    -- a reset node requests nothing
    simp only [Sending.step, Option.ite_none_right_eq_some] at next
    have := reset.lenBuffer
    omega

/-- Partial sends of a complete message transmit a prefix of it and reset the node with its
last byte, exactly as long as each call is on time. -/
theorem partialSends_law_iff (complete : node.Complete) (cnts : List ℕ) :
    EachStep step (fun _ _ t => Law node.message t) (start node) cnts ↔
      EachStep step (fun s cnt _ => OnTime node.message s cnt) (start node) cnts := by
  apply EachStep.iff_of_invariant (I := Going node.buffer node.lenBuffer)
  · intro s cnt t going next law
    obtain ⟨same, goes⟩ := going.step next
    exact goes (same.mp law)
  · intro s cnt t going next
    exact (going.step next).1
  · exact start_going complete

/-- A message of the bytes 0, 1, 2. -/
def threeBytes : Node := ⟨true, UInt8.ofNat, 0, 3⟩

theorem complete_threeBytes : threeBytes.Complete := ⟨rfl, rfl, by decide⟩

/-- All three bytes in one call. -/
theorem partialSends_law_one :
    EachStep step (fun _ _ t => Law threeBytes.message t) (start threeBytes) [3] := by
  apply (partialSends_law_iff complete_threeBytes [3]).mpr
  rintro t ⟨⟩
  exact ⟨.inl rfl, trivial⟩

/-- When the message is sent in two calls, the second does not reset the node. -/
theorem not_partialSends_law : threeBytes.Complete ∧
    ¬ EachStep step (fun _ _ t => Law threeBytes.message t) (start threeBytes) [1, 2] := by
  refine ⟨complete_threeBytes, fun each => ?_⟩
  have last := ((each _ rfl).2 _ rfl).1
  have reset := last.reset.mpr rfl
  exact Bool.noConfusion reset.pendingData

end Sending

end ComputerNetworks.Echo
