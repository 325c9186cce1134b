import ComputerNetworks.Lib.ReleaseBuffer
import ComputerNetworks.Lib.Runs
import ComputerNetworks.Transfer.Receiver
import ComputerNetworks.Transfer.ReceiverInvariant

/-!
# The receive window as a release buffer

The queue, the flags and the window of `recvfile` make up a release buffer of frames: a
frame is put into the slot of its number, and the write loop releases the front. This
holds for whatever frames arrive, as long as their numbers are inside the arrays.
-/

namespace ComputerNetworks.Transfer

open Lib

/-- The node holds the payload of a frame and its size. -/
structure RecvNode.Holds (node : RecvNode) (frame : Frame) : Prop where
  content : node.content = frame.payload
  size : node.size = frame.payload.length

theorem RecvNode.holds_fill (node : RecvNode) (frame : Frame) :
    (node.fill frame.payload).Holds frame :=
  ⟨node.content_fill frame.payload, rfl⟩

namespace Receiver

/-- The frame is accepted: it is of a new chunk, inside the window and not there yet. -/
def takes (frame : Frame) (r : Receiver) : Bool :=
  decide ((frame.type = 2 ∨ frame.type = 4) ∧ r.lastId < frame.packetId) &&
    (between r.laSeq ((r.laSeq + windowLen - 1) % seqLen) frame.seqNum && !r.received frame.seqNum)

/-- The receiver represents a release buffer. The first slot may be filled, as it is while
a run is being written. -/
structure Buffers (b : ReleaseBuffer Frame) (r : Receiver) : Prop where
  length : r.root.length = windowLen
  slots : b.waiting.length = windowLen
  flags : ∀ j < seqLen, r.received ((b.released.length + j) % seqLen) = true ↔
    ∃ frame, b.waiting[j]? = some (some frame)
  nodes : ∀ (j : ℕ) (frame : Frame), b.waiting[j]? = some (some frame) →
    ∃ node, r.root[j]? = some node ∧ node.Holds frame
  written : r.written = (b.released.map Frame.payload).flatten

/-- The receiver between two frames: its window starts behind what it has written, and
the first slot is free. -/
structure Waits (b : ReleaseBuffer Frame) (r : Receiver) : Prop extends Buffers b r where
  laSeq : r.laSeq = b.released.length % seqLen
  waiting : b.waiting[0]? = some none

variable {b : ReleaseBuffer Frame} {r : Receiver} {frame : Frame}

/-! ### Buffering and writing -/

/-- Buffering a frame of the window puts it into its slot. -/
theorem Buffers.buffer (h : Buffers b r) (laSeq : r.laSeq = b.released.length % seqLen) {i : ℕ}
    (inside : i < windowLen) (seqNum : frame.seqNum = (b.released.length + i) % seqLen) :
    Buffers (b.put i frame) (r.buffer frame) := by
  have hi : i < seqLen := lt_trans inside (by decide)
  have position : mapToWindow r.laSeq frame.seqNum = i := by
    rw [laSeq, seqNum]
    exact (mapToWindow_mod (by omega) (by omega)).trans (by omega)
  obtain ⟨node, hnode⟩ : ∃ node, r.root[i]? = some node :=
    ⟨_, List.getElem?_eq_getElem (by rw [h.length]; exact inside)⟩
  have root : (r.buffer frame).root = r.root.set i (node.fill frame.payload) := by
    simp only [Receiver.buffer, position, storeAt, getK_eq, hnode]
  have slot : i < b.waiting.length := by rw [h.slots]; exact inside
  have slots : ∀ j, (b.put i frame).waiting[j]? =
      if i = j then some (some frame) else b.waiting[j]? := by
    intro j
    simp only [ReleaseBuffer.put, List.getElem?_set, slot, if_true]
  refine ⟨?_, ?_, fun j hj => ?_, fun j other filled => ?_, h.written⟩
  · rw [root, List.length_set, h.length]
  · exact (List.length_set ..).trans h.slots
  · have mark : (r.buffer frame).received (((b.put i frame).released.length + j) % seqLen) =
        if j = i then true else r.received ((b.released.length + j) % seqLen) := by
      simp only [Receiver.buffer, ReleaseBuffer.put, Function.update_apply, seqNum,
        Sender.slot_eq_iff hj hi]
    rw [mark, slots j]
    by_cases here : j = i
    · simp [here]
    · rw [if_neg here, if_neg (Ne.symm here)]
      exact h.flags j hj
  · rw [slots j] at filled
    rw [root, List.getElem?_set]
    split_ifs at filled ⊢ with here there
    · obtain rfl : frame = other := by simpa using filled
      exact ⟨_, rfl, RecvNode.holds_fill node frame⟩
    · exact absurd (h.length.symm ▸ inside) there
    · exact h.nodes j other filled

/-- Writing the first node releases the first slot. -/
theorem Buffers.writeHead {done : List Frame} {first : Frame} {slots : List (Option Frame)}
    (h : Buffers ⟨done, some first :: slots⟩ r) {k : ℕ}
    (slot : (r.laSeq + k) % seqLen = done.length % seqLen) :
    Buffers ⟨done ++ [first], slots ++ [none]⟩ (r.writeHead k) := by
  obtain ⟨head, rest, root⟩ := List.exists_cons_of_length_eq_add_one h.length
  have length := h.length
  have slots_length := h.slots
  simp only [root, List.length_cons] at length slots_length
  -- slot `j` of the moved window is slot `j + 1` of the old one
  have behind : ∀ (j : ℕ) (other : Frame),
      (slots ++ [none])[j]? = some (some other) ↔ slots[j]? = some (some other) := by
    grind
  refine ⟨?_, ?_, fun j hj => ?_, fun j other filled => ?_, ?_⟩
  · simp [Receiver.writeHead, root, length]
  · simpa using slots_length
  · simp only [behind, Receiver.writeHead, List.length_append, List.length_singleton, slot,
      Function.update_apply, show done.length + 1 + j = done.length + (j + 1) by omega]
    rcases Nat.lt_or_ge (j + 1) seqLen with old | new
    · rw [if_neg (by dsimp only [seqLen] at *; omega)]
      exact h.flags (j + 1) old
    · have outside : slots[j]? = none := by
        apply List.getElem?_eq_none
        dsimp only [windowLen, seqLen] at *
        omega
      rw [outside, if_pos (by dsimp only [seqLen] at *; omega)]
      simp
  · rw [behind] at filled
    obtain ⟨node, old, holds⟩ := h.nodes (j + 1) other filled
    have inside := (List.getElem?_eq_some_iff.mp old).1
    rw [root, List.getElem?_cons_succ] at old
    rw [root, List.length_cons] at inside
    refine ⟨node, ?_, holds⟩
    simp only [Receiver.writeHead, root, enqueue_eq, dequeue_eq, List.drop_succ_cons, List.drop_zero]
    rwa [List.getElem?_append_left (by omega)]
  · obtain ⟨node, first_node, holds⟩ := h.nodes 0 first rfl
    rw [root] at first_node
    obtain rfl : head = node := by simpa using first_node
    simp [Receiver.writeHead, h.written, root, holds.content]

/-- Writing a run releases it. -/
theorem Buffers.writeRun {done run : List Frame} {slots : List (Option Frame)} {k : ℕ}
    (h : Buffers ⟨done, run.map some ++ slots⟩ r)
    (slot : (r.laSeq + k) % seqLen = done.length % seqLen) :
    Buffers ⟨done ++ run, slots ++ List.replicate run.length none⟩ (r.writeRun run.length k) := by
  induction run generalizing done slots k r with
  | nil => simpa [Receiver.writeRun] using h
  | cons first run ih =>
    have next : Buffers ⟨done ++ [first], run.map some ++ (slots ++ [none])⟩ (r.writeHead k) := by
      simpa using h.writeHead slot
    have moved := ih next (k := k + 1) (by
      rw [List.length_append, ← Nat.add_assoc]
      exact Nat.ModEq.add_right 1 slot)
    rw [List.append_assoc, List.append_assoc, List.singleton_append, List.singleton_append,
      ← List.replicate_succ] at moved
    exact moved

/-- The source counts the filled slots at the front of the window. -/
theorem Buffers.runLength (h : Buffers b r) (laSeq : r.laSeq = b.released.length % seqLen) :
    Receiver.runLength r.received r.laSeq windowLen = (ReleaseBuffer.leading b.waiting).length := by
  obtain ⟨bound, marked, stop⟩ := runLength_spec r.received r.laSeq windowLen
  have flags : ∀ j < seqLen, r.received ((r.laSeq + j) % seqLen) = true ↔
      ∃ frame, b.waiting[j]? = some (some frame) := by
    intro j hj
    rw [laSeq, Nat.mod_add_mod]
    exact h.flags j hj
  have front := ReleaseBuffer.length_leading_le b.waiting
  rw [h.slots] at front
  rcases lt_trichotomy (Receiver.runLength r.received r.laSeq windowLen)
    (ReleaseBuffer.leading b.waiting).length with less | same | more
  -- a shorter count stopped at a free slot, a longer one passed the free slot behind the front
  · have free := stop (by omega)
    have filled := (flags _ (by dsimp only [windowLen, seqLen] at *; omega)).mpr
      (ReleaseBuffer.getElem?_leading less)
    rw [free] at filled
    cases filled
  · exact same
  · obtain ⟨frame, filled⟩ := (flags _ (by dsimp only [windowLen, seqLen] at *; omega)).mp
      (marked _ more)
    rw [ReleaseBuffer.getElem?_length_leading (by rw [h.slots]; omega)] at filled
    cases filled

/-! ### Handling a frame -/

/-- A frame whose number passes the window test belongs to a slot of the window. -/
theorem exists_slot {base seqNum : ℕ} (inside : seqNum < seqLen)
    (window : between (base % seqLen) ((base % seqLen + windowLen - 1) % seqLen) seqNum = true) :
    ∃ i < windowLen, seqNum = (base + i) % seqLen := by
  refine ⟨(seqNum + seqLen - base % seqLen) % seqLen, ?_, ?_⟩
  · unfold between at window
    dsimp only [seqLen, windowLen] at *
    split_ifs at window <;> rw [decide_eq_true_eq] at window <;> omega
  · dsimp only [seqLen] at *
    omega

/-- Accepting a frame puts it into the buffer and releases what is ready. -/
theorem Waits.accept (h : Waits b r) {i : ℕ} (inside : i < windowLen)
    (seqNum : frame.seqNum = (b.released.length + i) % seqLen) :
    Waits (b.put i frame).release (r.accept frame) := by
  have buffered := h.toBuffers.buffer h.laSeq inside seqNum
  have laSeq : (r.buffer frame).laSeq = b.released.length % seqLen := h.laSeq
  have counted : (r.buffer frame).countRun frame.seqNum =
      (ReleaseBuffer.leading (b.put i frame).waiting).length := by
    unfold countRun
    split_ifs with other
    -- a frame in front of the first one leaves the first slot free
    · have apart : i ≠ 0 := by
        rintro rfl
        exact other (seqNum.trans laSeq.symm)
      have free : (b.put i frame).waiting[0]? = some none := by
        rw [← h.waiting]
        exact List.getElem?_set_ne apart
      rw [ReleaseBuffer.leading_eq_nil free]
      rfl
    · exact buffered.runLength laSeq
  obtain ⟨kept, -, -⟩ := writeRun_frame (ReleaseBuffer.leading (b.put i frame).waiting).length 0
    (r.buffer frame)
  have written : Buffers (b.put i frame).release
      ((r.buffer frame).writeRun (ReleaseBuffer.leading (b.put i frame).waiting).length 0) := by
    apply Buffers.writeRun
    · rw [ReleaseBuffer.leading_append_drop]
      exact buffered
    · rw [Nat.add_zero, laSeq, Nat.mod_mod]
      rfl
  unfold Receiver.accept
  dsimp only
  rw [counted]
  refine ⟨{ written with }, ?_, ReleaseBuffer.release_free ?_⟩
  · simp only [Receiver.advance, kept, laSeq, ReleaseBuffer.release, List.length_append,
      Nat.mod_add_mod]
    rfl
  · rw [buffered.slots]
    decide

theorem Waits.announce (h : Waits b r) : Waits b (r.announce frame) := by
  unfold Receiver.announce
  split_ifs
  · exact { h with }
  · exact h

theorem Waits.setPhase (h : Waits b r) (phase : ReceiverPhase) : Waits b { r with phase := phase } :=
  { h with }

/-- The window as the queue is set up. -/
theorem Waits.start (name : Frame) (tv : Timeval) :
    Waits (ReleaseBuffer.empty windowLen) (Receiver.start.nameIteration name tv).1 := by
  constructor
  · constructor
    all_goals simp [Receiver.nameIteration, Receiver.start, ReleaseBuffer.empty,
      List.getElem?_replicate]
  · rfl
  · rfl

theorem handleFrame_eq (frame : Frame) (r : Receiver) :
    r.handleFrame frame =
      if r.takes frame then (r.announce frame).accept frame
      else if (frame.type = 2 ∨ frame.type = 4) ∧ r.lastId < frame.packetId then r.announce frame
      else r := by
  have same : (r.announce frame).laSeq = r.laSeq ∧ (r.announce frame).received = r.received := by
    unfold Receiver.announce
    split_ifs <;> exact ⟨rfl, rfl⟩
  unfold Receiver.handleFrame takes
  simp only [same.1, same.2, Bool.and_eq_true, decide_eq_true_eq, Bool.not_eq_true']
  split_ifs <;> simp_all

/-- A frame is put into its slot when it is accepted, and changes nothing otherwise. -/
theorem Waits.handleFrame (h : Waits b r) (numbered : frame.seqNum < seqLen) :
    if r.takes frame then
      ∃ i < windowLen, frame.seqNum = (b.released.length + i) % seqLen ∧
        b.waiting[i]? = some none ∧ Waits (b.put i frame).release (r.handleFrame frame)
    else Waits b (r.handleFrame frame) := by
  rw [handleFrame_eq]
  split_ifs with taken fresh
  · simp only [takes, Bool.and_eq_true, Bool.not_eq_true'] at taken
    obtain ⟨-, window, free⟩ := taken
    rw [h.laSeq] at window
    obtain ⟨i, inside, seqNum⟩ := exists_slot numbered window
    refine ⟨i, inside, seqNum, ?_, h.announce.accept inside seqNum⟩
    obtain ⟨slot, hslot⟩ : ∃ slot, b.waiting[i]? = some slot :=
      ⟨_, List.getElem?_eq_getElem (by rw [h.slots]; exact inside)⟩
    cases slot with
    | none => exact hslot
    | some other =>
      have marked := (h.flags i (lt_trans inside (by decide))).mpr ⟨other, hslot⟩
      rw [← seqNum, free] at marked
      cases marked
  · exact h.announce
  · exact h

end Receiver

/-! ### Runs of the main loop -/

/-- The receiver with a record of the frames it has accepted. -/
structure Recording where
  recv : Receiver
  accepted : List Frame

namespace Recording

/-- An iteration of the main loop, while it lasts. -/
def step (s : Recording) (poll : Option Frame × Timeval) : Option Recording :=
  if s.recv.phase = .data then
    some ⟨(s.recv.iteration poll.1 poll.2).1,
      s.accepted ++ poll.1.toList.filter s.recv.takes⟩
  else none

/-- At the start of the main loop. -/
def start (name : Frame) (tv : Timeval) : Recording := ⟨(Receiver.start.nameIteration name tv).1, []⟩

/-- The window is an exact release buffer: a queue of `windowLen` nodes, a mark only on
numbers of the window, whose node holds the frame accepted for it, none on the first of them, and
written bytes that are the payloads of the released frames, numbered from zero on. The frames
released and the ones in the window are together the accepted ones. -/
structure Exact (b : ReleaseBuffer Frame) (s : Recording) : Prop where
  length : s.recv.root.length = windowLen
  marked : ∀ q < seqLen, s.recv.received q = true →
    (q + seqLen - s.recv.laSeq) % seqLen < windowLen ∧ ∃ frame node,
      b.waiting[(q + seqLen - s.recv.laSeq) % seqLen]? = some (some frame) ∧ frame.seqNum = q ∧
        s.recv.root[(q + seqLen - s.recv.laSeq) % seqLen]? = some node ∧ node.Holds frame
  front : b.waiting[0]? = some none ∧ s.recv.received s.recv.laSeq = false
  written : s.recv.written = (b.released.map Frame.payload).flatten
  numbered : ∀ (i : ℕ) (frame : Frame), b.released[i]? = some frame → frame.seqNum = i % seqLen
  buffered : ∀ frame, some frame ∈ b.waiting → s.recv.received frame.seqNum = true
  accounted : s.accepted.Perm b.contents

/-- The law of the main loop. -/
structure Law (b : ReleaseBuffer Frame) (s : Recording) : Prop where
  waits : s.recv.Waits b
  placed : b.Placed fun i frame => frame.seqNum = i % seqLen
  accounted : s.accepted.Perm b.contents

variable {b : ReleaseBuffer Frame} {s t : Recording}

theorem Law.start (name : Frame) (tv : Timeval) :
    Law (ReleaseBuffer.empty windowLen) (Recording.start name tv) :=
  ⟨Receiver.Waits.start name tv, ReleaseBuffer.Placed.empty windowLen, by
    simp [Recording.start, ReleaseBuffer.contents, ReleaseBuffer.empty]⟩

/-- One iteration keeps the law. -/
theorem Law.step (h : Law b s) {poll : Option Frame × Timeval}
    (numbered : ∀ frame ∈ poll.1, frame.seqNum < seqLen) (next : s.step poll = some t) :
    ∃ b, Law b t := by
  unfold Recording.step at next
  split_ifs at next with phase
  obtain rfl := Option.some.inj next
  obtain ⟨recv, now⟩ := poll
  cases recv with
  | none => exact ⟨b, h.waits.setPhase _, h.placed, by simpa using h.accounted⟩
  | some frame =>
    have handled := h.waits.handleFrame (numbered frame rfl)
    split_ifs at handled with taken
    · obtain ⟨i, inside, seqNum, free, waits⟩ := handled
      refine ⟨(b.put i frame).release, waits.setPhase _, (h.placed.put seqNum).release, ?_⟩
      have recorded : s.accepted ++ [frame].filter s.recv.takes = s.accepted ++ [frame] := by
        simp [taken]
      dsimp only
      rw [ReleaseBuffer.contents_release, Option.toList_some, recorded]
      exact (List.perm_append_singleton _ _).trans
        ((h.accounted.cons frame).trans (ReleaseBuffer.contents_put free).symm)
    · refine ⟨b, handled.setPhase _, h.placed, ?_⟩
      simpa [taken] using h.accounted

/-- What the law says about the receiver. -/
theorem Law.exact (h : Law b s) : Exact b s := by
  have laSeq := h.waits.laSeq
  have slots := h.waits.slots
  refine ⟨h.waits.length, fun q hq marked => ?_, ⟨h.waits.waiting, ?_⟩, h.waits.written,
    h.placed.released, fun frame mem => ?_, h.accounted⟩
  · -- `q` is the number of a slot, and only slots of the window are filled
    generalize slot : (q + seqLen - s.recv.laSeq) % seqLen = j
    have hj : j < seqLen := slot ▸ Nat.mod_lt _ (by decide)
    have number : q = (b.released.length + j) % seqLen := by
      dsimp only [seqLen] at *
      omega
    rw [number] at marked
    obtain ⟨frame, filled⟩ := (h.waits.flags j hj).mp marked
    obtain ⟨node, place, holds⟩ := h.waits.nodes j frame filled
    refine ⟨?_, frame, node, filled, ?_, place, holds⟩
    · rw [← slots]
      exact (List.getElem?_eq_some_iff.mp filled).1
    · rw [number]
      exact h.placed.waiting j frame filled
  · -- what is ready has been released
    rw [Bool.eq_false_iff, laSeq]
    intro marked
    obtain ⟨frame, filled⟩ := (h.waits.flags 0 (by decide)).mp marked
    cases h.waits.waiting.symm.trans filled
  · obtain ⟨j, filled⟩ := List.mem_iff_getElem?.mp mem
    have inside := (List.getElem?_eq_some_iff.mp filled).1
    rw [slots] at inside
    rw [h.placed.waiting j frame filled]
    exact (h.waits.flags j (lt_trans inside (by decide))).mpr ⟨frame, filled⟩

/-- The law along a run. -/
theorem Law.exec (h : Law b s) {polls : List (Option Frame × Timeval)}
    (numbered : ∀ poll ∈ polls, ∀ frame ∈ poll.1, frame.seqNum < seqLen)
    (run : Lib.exec Recording.step s polls = some t) : ∃ b, Law b t := by
  induction polls generalizing b s with
  | nil =>
    obtain rfl := Option.some.inj run
    exact ⟨b, h⟩
  | cons poll polls ih =>
    obtain ⟨u, first, rest⟩ := (exec_cons_eq_some _).mp run
    obtain ⟨b', h'⟩ := h.step (numbered poll List.mem_cons_self) first
    exact ih h' (fun other mem => numbered other (List.mem_cons_of_mem _ mem)) rest

end Recording

/-- Whatever frames with numbers below `seqLen` come, the receive window stays an exact
release buffer. -/
theorem window_releases_in_order (name : Frame) (tv : Timeval)
    (polls : List (Option Frame × Timeval))
    (numbered : ∀ poll ∈ polls, ∀ frame ∈ poll.1, frame.seqNum < seqLen) {s : Recording}
    (run : exec Recording.step (Recording.start name tv) polls = some s) :
    ∃ b, Recording.Exact b s := by
  obtain ⟨b, law⟩ := (Recording.Law.start name tv).exec numbered run
  exact ⟨b, law.exact⟩

/-- Two frames, the second first. -/
theorem window_releases_in_order_two :
    ∃ s, exec Recording.step (Recording.start ⟨15, 2, 0, [97, 0]⟩ ⟨0, 0⟩)
        [(some ⟨1, 4, 2, [7]⟩, ⟨0, 1⟩), (some ⟨0, 2, 1, [5]⟩, ⟨0, 2⟩)] = some s ∧
      s.recv.written = [5, 7] ∧ ∃ b, Recording.Exact b s :=
  ⟨_, rfl, rfl, window_releases_in_order ⟨15, 2, 0, [97, 0]⟩ ⟨0, 0⟩
    [(some ⟨1, 4, 2, [7]⟩, ⟨0, 1⟩), (some ⟨0, 2, 1, [5]⟩, ⟨0, 2⟩)] (by simp) rfl⟩

end ComputerNetworks.Transfer
