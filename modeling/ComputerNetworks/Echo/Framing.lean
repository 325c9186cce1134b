import ComputerNetworks.Echo.Node
import Mathlib.Tactic.SplitIfs

/-!
# Framing

A frame that arrives in pieces, cut in any way. The length of a message is decoded once,
from the first two bytes of the buffer, as soon as anything has been read; after a read of
a single byte the second of them is left from before.
-/

namespace ComputerNetworks.Echo

/-- A frame starts with its own length, as a big-endian number of two bytes. -/
structure IsFrame (frame : List UInt8) : Prop where
  short : 10 ≤ frame.length
  long : frame.length ≤ msgSizeMax
  header : (frame.getD 0 0).toNat * 256 + (frame.getD 1 0).toNat = frame.length

namespace Node

/-- The first bytes of a frame have been read, but not all of it; its length may still be
unknown. -/
structure Reading (frame held : List UInt8) (node : Node) : Prop where
  pendingData : node.pendingData = false
  addedPos : node.addedPos = held.length
  lenBuffer : node.lenBuffer = frame.length ∨ node.lenBuffer = 0
  holds : slice node.buffer 0 held.length = held

/-- The frame has been read and is to be sent. -/
structure Ready (frame : List UInt8) (node : Node) : Prop where
  pendingData : node.pendingData = true
  addedPos : node.addedPos = 0
  lenBuffer : node.lenBuffer = frame.length
  holds : slice node.buffer 0 frame.length = frame

/-- The length of the message after a read. -/
def lengthAfter (bytes : List UInt8) (node : Node) : ℕ :=
  if node.lenBuffer = 0 then messageLength (writeAt node.buffer node.addedPos bytes)
  else node.lenBuffer

variable {node : Node} {frame held bytes rest : List UInt8}

theorem Reset.reading (h : node.Reset) : node.Reading frame [] :=
  ⟨h.pendingData, h.addedPos, .inr h.lenBuffer, rfl⟩

theorem serverRecieving_eq (node : Node) (some_ : bytes ≠ []) :
    node.serverRecieving bytes =
      if node.addedPos + bytes.length = node.lengthAfter bytes
      then ⟨true, writeAt node.buffer node.addedPos bytes, 0, node.lengthAfter bytes⟩
      else ⟨node.pendingData, writeAt node.buffer node.addedPos bytes,
        node.addedPos + bytes.length, node.lengthAfter bytes⟩ := by
  unfold serverRecieving
  rw [if_pos (List.length_pos_iff.mpr some_)]
  rfl

theorem lenBuffer_serverRecieving (node : Node) (some_ : bytes ≠ []) :
    (node.serverRecieving bytes).lenBuffer = node.lengthAfter bytes := by
  rw [serverRecieving_eq node some_]
  split_ifs <;> rfl

theorem getD_left {i : ℕ} (h : i < held.length) : (held ++ rest).getD i 0 = held[i] := by
  rw [List.getD_append _ _ _ _ h, List.getD_eq_getElem]

/-- Once two bytes are there, the length is right. -/
theorem Reading.length_two (h : node.Reading frame held) (wellFormed : IsFrame frame)
    (split : held ++ bytes ++ rest = frame) (two : 2 ≤ (held ++ bytes).length) :
    node.lengthAfter bytes = frame.length := by
  unfold lengthAfter
  split_ifs with unknown
  · have header := wellFormed.header
    rw [← split, getD_left (show 0 < (held ++ bytes).length by omega),
      getD_left (show 1 < (held ++ bytes).length by omega), split] at header
    rw [h.addedPos, messageLength_eq (slice_writeAt h.holds) two, header]
  · have := wellFormed.short
    have := h.lenBuffer
    omega

/-- A read that does not end the frame. -/
theorem Reading.read (h : node.Reading frame held) (split : held ++ bytes ++ rest = frame)
    (some_ : bytes ≠ []) (more : rest ≠ [])
    (length : node.lengthAfter bytes = frame.length ∨ node.lengthAfter bytes = 0) :
    (node.serverRecieving bytes).Reading frame (held ++ bytes) := by
  have positive := List.length_pos_iff.mpr some_
  have left := List.length_pos_iff.mpr more
  have wrote : slice (writeAt node.buffer held.length bytes) 0 (held ++ bytes).length =
      held ++ bytes := slice_writeAt h.holds
  have moved : node.addedPos + bytes.length = (held ++ bytes).length := by
    rw [h.addedPos, List.length_append]
  have sum : frame.length = (held ++ bytes).length + rest.length := by
    rw [← split, List.length_append]
  have some_held : 0 < (held ++ bytes).length := by
    rw [List.length_append]
    omega
  have going : node.addedPos + bytes.length ≠ node.lengthAfter bytes := by omega
  rw [serverRecieving_eq node some_, if_neg going]
  refine ⟨h.pendingData, moved, length, ?_⟩
  rw [h.addedPos]
  exact wrote

/-- The read that ends the frame. -/
theorem Reading.ready (h : node.Reading frame held) (split : held ++ bytes = frame)
    (some_ : bytes ≠ []) (length : node.lengthAfter bytes = frame.length) :
    (node.serverRecieving bytes).Ready frame := by
  have moved : node.addedPos + bytes.length = node.lengthAfter bytes := by
    rw [h.addedPos, length, ← split, List.length_append]
  rw [serverRecieving_eq node some_, if_pos moved]
  refine ⟨rfl, rfl, length, ?_⟩
  rw [h.addedPos, ← split]
  exact slice_writeAt h.holds

/-! ### Pieces -/

/-- A read for each of the pieces. -/
def reads (node : Node) (pieces : List (List UInt8)) : Node :=
  pieces.foldl (fun node bytes => node.serverRecieving bytes) node

/-- The pieces make the frame ready with the last one and not before. -/
structure Framed (frame : List UInt8) (pieces : List (List UInt8)) (node : Node) : Prop where
  early : ∀ k < pieces.length, (node.reads (pieces.take k)).pendingData = false
  ready : (node.reads pieces).Ready frame

/-- The length is decoded from two bytes of the frame: the first piece has both, the buffer
has the second one already, or the length is read as 0 and decoded once more. -/
def Decodes (frame first : List UInt8) (node : Node) : Prop :=
  2 ≤ first.length ∨ node.buffer 1 = frame.getD 1 0 ∨ frame.getD 0 0 = 0 ∧ node.buffer 1 = 0

variable {first : List UInt8} {pieces : List (List UInt8)}

theorem Framed.cons (pending : node.pendingData = false)
    (h : Framed frame pieces (node.serverRecieving first)) : Framed frame (first :: pieces) node := by
  refine ⟨fun k hk => ?_, h.ready⟩
  cases k with
  | zero => exact pending
  | succ k => exact h.early k (by simpa using hk)

/-- The rest of a frame may come in any pieces, as long as the first of them does not leave
a wrong length. -/
theorem Reading.framed (h : node.Reading frame held) (wellFormed : IsFrame frame)
    (some_ : ∀ piece ∈ pieces, piece ≠ []) (more : pieces ≠ [])
    (split : held ++ pieces.flatten = frame)
    (length : ∀ first ∈ pieces.head?,
      node.lengthAfter first = frame.length ∨ node.lengthAfter first = 0) :
    node.Framed frame pieces := by
  induction pieces generalizing node held with
  | nil => contradiction
  | cons first pieces ih =>
    obtain ⟨first_some, later_some⟩ := List.forall_mem_cons.mp some_
    rw [List.flatten_cons, ← List.append_assoc] at split
    apply Framed.cons h.pendingData
    cases pieces with
    | nil =>
      refine ⟨fun k hk => absurd hk (Nat.not_lt_zero k), ?_⟩
      have two : 2 ≤ (held ++ first).length := by
        have := wellFormed.short
        rw [← split, List.flatten_nil, List.append_nil] at this
        omega
      have known := h.length_two wellFormed split two
      exact h.ready (by simpa using split) first_some known
    | cons second pieces =>
      have more : second :: pieces ≠ [] := List.cons_ne_nil _ _
      have read := h.read split first_some (flatten_ne_nil later_some more) (length first rfl)
      refine ih read later_some more split ?_
      -- two pieces have two bytes
      rintro _ ⟨⟩
      have two : 2 ≤ (held ++ first ++ second).length := by
        have := List.length_pos_iff.mpr first_some
        have := List.length_pos_iff.mpr (later_some second List.mem_cons_self)
        simp only [List.length_append]
        omega
      rw [List.flatten_cons, ← List.append_assoc] at split
      exact .inl (read.length_two wellFormed split two)

/-- A length that was decoded stays. -/
theorem lenBuffer_reads (known : node.lenBuffer ≠ 0) :
    (node.reads pieces).lenBuffer = node.lenBuffer := by
  induction pieces generalizing node with
  | nil => rfl
  | cons first pieces ih =>
    have same : (node.serverRecieving first).lenBuffer = node.lenBuffer := by
      by_cases empty : first = []
      · subst empty
        rfl
      · rw [lenBuffer_serverRecieving node empty, lengthAfter, if_neg known]
    rw [← same] at known ⊢
    exact ih known

/-- The length that the first read of a frame leaves is right or unknown exactly when it
was decoded from bytes of the frame. -/
theorem Reset.decodes_iff (h : node.Reset) (wellFormed : IsFrame frame) (some_ : first ≠ [])
    (split : first ++ rest = frame) :
    node.Decodes frame first ↔
      node.lengthAfter first = frame.length ∨ node.lengthAfter first = 0 := by
  unfold Decodes
  by_cases two : 2 ≤ first.length
  · have reading : node.Reading frame [] := h.reading
    have length := reading.length_two wellFormed split two
    exact iff_of_true (.inl two) (.inl length)
  · obtain ⟨x, rfl⟩ : ∃ x, first = [x] := by
      have positive := List.length_pos_iff.mpr some_
      exact List.length_eq_one_iff.mp (by omega)
    have header := wellFormed.header
    have short := wellFormed.short
    have head : frame.getD 0 0 = x := by
      rw [← split]
      rfl
    have length : node.lengthAfter [x] = x.toNat * 256 + (node.buffer 1).toNat := by
      rw [lengthAfter, if_pos h.lenBuffer, h.addedPos]
      rfl
    rw [or_iff_right two, length, head, ← UInt8.toNat_inj, ← UInt8.toNat_inj, ← UInt8.toNat_inj]
    rw [head] at header
    have zero : (0 : UInt8).toNat = 0 := rfl
    omega

/-- A frame becomes ready with its last piece and not before, whatever the pieces, exactly
when its length is decoded from its own bytes. -/
theorem framed_iff (reset : node.Reset) (wellFormed : IsFrame frame)
    (some_ : ∀ piece ∈ pieces, piece ≠ []) (whole : pieces.flatten = frame) :
    node.Framed frame pieces ↔ ∀ first ∈ pieces.head?, node.Decodes frame first := by
  have more : pieces ≠ [] := by
    rintro rfl
    have short := wellFormed.short
    rw [← whole] at short
    contradiction
  obtain ⟨first, pieces, rfl⟩ := List.exists_cons_of_ne_nil more
  have first_some := some_ first List.mem_cons_self
  have decodes := reset.decodes_iff wellFormed first_some (List.flatten_cons ▸ whole)
  simp only [List.head?_cons, Option.mem_some_iff, forall_eq', decodes]
  constructor
  · intro framed
    have length : ((node.serverRecieving first).reads pieces).lenBuffer = frame.length :=
      framed.ready.lenBuffer
    by_cases unknown : node.lengthAfter first = 0
    · exact .inr unknown
    · rw [← lenBuffer_serverRecieving node first_some] at unknown ⊢
      rw [lenBuffer_reads unknown] at length
      exact .inl length
  · intro length
    have reading : node.Reading frame [] := reset.reading
    apply reading.framed wellFormed some_ more whole
    rintro _ ⟨⟩
    exact length

/-- Ten bytes, of which the length is all that is not zero. -/
def zeros : List UInt8 := [0, 10] ++ List.replicate 8 0

theorem isFrame_zeros : IsFrame zeros := ⟨by decide, by decide, by decide⟩

theorem reset_fresh (memory : ℕ → UInt8) : (fresh memory).Reset := ⟨rfl, rfl, rfl⟩

/-- Three pieces, of which the first has the length. -/
theorem framed_zeros : (fresh fun _ => 1).Framed zeros [[0, 10], [0], List.replicate 7 0] := by
  refine (framed_iff (reset_fresh _) isFrame_zeros (by decide) rfl).mpr ?_
  rintro first ⟨⟩
  exact .inl (by decide)

/-- After a first piece of one byte, the second byte of the length is one from before. -/
theorem not_framed_zeros : (fresh fun _ => 1).Reset ∧ IsFrame zeros ∧
    [[0], 10 :: List.replicate 8 0].flatten = zeros ∧
      ¬ (fresh fun _ => 1).Framed zeros [[0], 10 :: List.replicate 8 0] := by
  refine ⟨reset_fresh _, isFrame_zeros, rfl, fun framed => ?_⟩
  have early := framed.early 1 (by decide)
  exact Bool.noConfusion early

end Node

end ComputerNetworks.Echo
