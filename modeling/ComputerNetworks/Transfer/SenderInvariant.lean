import ComputerNetworks.Transfer.Sender
import Mathlib.Data.List.Range
import Mathlib.Tactic.SplitIfs

/-!
# The bookkeeping law of the sender

`Sender.Aligned file base q s` says that the window of `s` starts at chunk
`base`, that exactly the chunks `base, …, base + q - 1` are sent and not yet
acknowledged, and that slot flags, queue, packet counter, file position and
`last_window` all agree on it. Every step of the main loop keeps the law, moving
`base` on an accepted ack and `q` when a chunk is created.
-/

namespace ComputerNetworks.Transfer

open Lib

namespace RegularFile

variable (file : RegularFile)

/-- The type of the frame for chunk `j`: 4 on the last one. -/
def frameType (j : ℕ) : ℕ := if file.lastChunk ≤ j then 4 else 2

/-- The frame that carries chunk `j`. -/
def frame (j : ℕ) : Frame :=
  ⟨j % seqLen, file.frameType j, (j + 1) % 2 ^ 32, file.chunk j⟩

/-- The queue node that holds chunk `j`. -/
def node (j : ℕ) : SendNode :=
  ⟨j % seqLen, file.frameType j, (j + 1) % 2 ^ 32, file.chunk j⟩

theorem node_frame (j : ℕ) : (file.node j).frame (file.chunk j).length = file.frame j := by
  simp [SendNode.frame, node, frame]

end RegularFile

namespace Sender

/-- The chunks `base, …, base + q - 1` are outstanding, and every variable of the
main loop agrees. -/
structure Aligned (file : RegularFile) (base q : ℕ) (s : Sender) : Prop where
  laSeq : s.laSeq = base % seqLen
  packetId : s.packetId = (base + q) % 2 ^ 32
  pos : s.pos = min ((base + q) * bufLen) file.size
  root : s.root = (List.range q).map fun j => file.node (base + j)
  isSet : ∀ j < seqLen, (s.alarmList ((base + j) % seqLen)).isSet ≠ .unset ↔ j < q
  size : ∀ j < q, (s.alarmList ((base + j) % seqLen)).size = (file.chunk (base + j)).length
  lastWindow : s.lastWindow =
    if base + q = file.lastChunk + 1 then ((file.lastChunk % seqLen : ℕ) : ℤ) else -1
  created : base + q ≤ file.lastChunk + 1
  unacked : base ≤ file.lastChunk
  window : q ≤ windowLen

variable {file : RegularFile} {base q : ℕ} {s : Sender}

/-- The law speaks neither of the program counter nor of the clocks. -/
theorem Aligned.congr (h : Aligned file base q s) {t : Sender} (laSeq : t.laSeq = s.laSeq)
    (lastWindow : t.lastWindow = s.lastWindow) (packetId : t.packetId = s.packetId)
    (alarmList : t.alarmList = s.alarmList) (root : t.root = s.root) (pos : t.pos = s.pos) :
    Aligned file base q t where
  laSeq := laSeq.trans h.laSeq
  packetId := packetId.trans h.packetId
  pos := pos.trans h.pos
  root := root.trans h.root
  isSet := alarmList ▸ h.isSet
  size := alarmList ▸ h.size
  lastWindow := lastWindow.trans h.lastWindow
  created := h.created
  unacked := h.unacked
  window := h.window

/-- The law at the start of the main loop, with nothing sent. -/
theorem Aligned.start (file : RegularFile) : Aligned file 0 0 Sender.start where
  laSeq := rfl
  packetId := rfl
  pos := by simp [Sender.start]
  root := rfl
  isSet := by simp [Sender.start]
  size := by simp
  lastWindow := by simp [Sender.start]
  created := by omega
  unacked := Nat.zero_le _
  window := Nat.zero_le _

/-- Within one revolution, slots are named by their distance from the base. -/
theorem slot_eq_iff {i j : ℕ} (hi : i < seqLen) (hj : j < seqLen) :
    (base + i) % seqLen = (base + j) % seqLen ↔ i = j := by
  dsimp only [seqLen] at *
  omega

/-! ### Timeouts -/

/-- A timeout scan rewrites flags only, and neither sets nor clears one. -/
theorem checkTimeout_spec (scan : ℕ → Timeval) (s : Sender) :
    ∃ alarmList, s.checkTimeout scan = { s with alarmList := alarmList } ∧
      ∀ k, (alarmList k).size = (s.alarmList k).size ∧
        ((alarmList k).isSet = .unset ↔ (s.alarmList k).isSet = .unset) := by
  -- over the slots scanned so far
  unfold checkTimeout
  induction windowLen with
  | zero => exact ⟨s.alarmList, rfl, fun k => by simp⟩
  | succ n ih =>
    obtain ⟨alarmList, scanned, same⟩ := ih
    rw [List.range_succ, List.foldl_append, scanned, List.foldl_cons, List.foldl_nil, scanSlot]
    split_ifs with due
    · refine ⟨_, rfl, fun k => ?_⟩
      by_cases here : k = (s.laSeq + n) % seqLen
      · subst here
        have set := (not_congr (same _).2).mp due.1
        simp [Alarm.expire, (same _).1, set]
      · simpa [Function.update_of_ne here] using same k
    · exact ⟨alarmList, rfl, same⟩

theorem Aligned.checkTimeout (h : Aligned file base q s) (scan : ℕ → Timeval) :
    Aligned file base q (s.checkTimeout scan) := by
  obtain ⟨alarmList, scanned, same⟩ := checkTimeout_spec scan s
  rw [scanned]
  exact { h with
    isSet := fun j hj => (not_congr (same _).2).trans (h.isSet j hj)
    size := fun j hj => (same _).1.trans (h.size j hj) }

/-! ### Acks -/

/-- The ack loop does not look at ack times. -/
@[simp] theorem release_lastAckTime (ackNum : ℕ) (s : Sender) :
    (s.release ackNum).lastAckTime = s.lastAckTime := by
  unfold release
  induction windowLen with
  | zero => rfl
  | succ n ih =>
    rw [List.range_succ, List.foldl_append, List.foldl_cons, List.foldl_nil, releaseSlot]
    split_ifs
    · exact ih
    · exact ih

/-- When the arc up to the acked number covers the first `m` slots, the first `n`
rounds of the ack loop clear those of the `m` slots they visit and drop as many
frames. -/
theorem release_prefix {m ackNum n : ℕ} (laSeq : s.laSeq = base % seqLen)
    (arc : ∀ j < windowLen, between s.laSeq ackNum ((base + j) % seqLen) = true ↔ j < m)
    (hn : n ≤ windowLen) :
    ∃ alarmList, (List.range n).foldl
        (fun t j => t.releaseSlot s.laSeq ackNum ((s.laSeq + j) % seqLen)) s =
          { s with alarmList := alarmList, root := s.root.drop (min n m) } ∧
      ∀ j < seqLen, alarmList ((base + j) % seqLen) =
        if j < min n m then (s.alarmList ((base + j) % seqLen)).clear
        else s.alarmList ((base + j) % seqLen) := by
  induction n with
  | zero => exact ⟨s.alarmList, by simp, by simp⟩
  | succ n ih =>
    obtain ⟨alarmList, released, slots⟩ := ih (by omega)
    have slot : (s.laSeq + n) % seqLen = (base + n) % seqLen := by rw [laSeq, Nat.mod_add_mod]
    have inside : n < seqLen := lt_of_lt_of_le hn (by decide)
    rw [List.range_succ, List.foldl_append, released, List.foldl_cons, List.foldl_nil,
      releaseSlot, slot]
    split_ifs with acked
    -- round `n` clears slot `n` of the window and drops the head of the queue
    · have covered : n < m := (arc n hn).mp acked
      refine ⟨Function.update alarmList ((base + n) % seqLen)
        (alarmList ((base + n) % seqLen)).clear, ?_, ?_⟩
      · simp [List.drop_drop, show min (n + 1) m = min n m + 1 by omega]
      intro j hj
      by_cases here : j = n
      · subst here
        simp [slots j hj, covered]
      · rw [Function.update_of_ne (by rw [Ne, slot_eq_iff hj inside]; exact here), slots j hj]
        congr 1
        simp only [eq_iff_iff]
        omega
    · have beyond : m ≤ n := not_lt.mp (acked ∘ (arc n hn).mpr)
      refine ⟨alarmList, by rw [show min (n + 1) m = min n m by omega], ?_⟩
      rwa [show min (n + 1) m = min n m by omega]

/-- An ack of the chunks before `acked` moves the base there. -/
theorem Aligned.acceptAck (h : Aligned file base q s) {acked : ℕ} (fresh : base < acked)
    (sent : acked ≤ base + q) (unfinished : acked ≤ file.lastChunk) :
    Aligned file acked (base + q - acked) (s.acceptAck ((acked + 15) % seqLen)) := by
  have window := h.window
  dsimp only [windowLen] at window
  have arc : ∀ j < windowLen,
      between s.laSeq ((acked + 15) % seqLen) ((base + j) % seqLen) = true ↔
        j < acked - base := by
    intro j hj
    dsimp only [windowLen] at hj
    rw [show (acked + 15) % seqLen = (acked - 1) % seqLen by dsimp only [seqLen]; omega, h.laSeq,
      between_mod (by omega) (by dsimp only [seqLen]; omega) (by omega)
        (by dsimp only [seqLen]; omega)]
    omega
  obtain ⟨alarmList, released, slots⟩ := release_prefix h.laSeq arc le_rfl
  have count : min windowLen (acked - base) = acked - base := by
    dsimp only [windowLen]; omega
  rw [count] at released slots
  -- slot `j` of the new window is slot `acked - base + j` of the old one
  have shift : ∀ j, (acked + j) % seqLen = (base + (acked - base + j)) % seqLen := by
    intro j
    rw [show base + (acked - base + j) = acked + j by omega]
  have wrapped : ∀ j, seqLen ≤ acked - base + j →
      (acked + j) % seqLen = (base + (acked - base + j - seqLen)) % seqLen := by
    intro j hj
    dsimp only [seqLen] at *
    omega
  unfold Sender.acceptAck
  rw [show s.release ((acked + 15) % seqLen) = _ from released]
  dsimp only
  refine ⟨?_, ?_, ?_, ?_, ?_, ?_, ?_, ?_, unfinished, ?_⟩
  · dsimp only [seqLen]; omega
  · rw [show acked + (base + q - acked) = base + q by omega]
    exact h.packetId
  · rw [show acked + (base + q - acked) = base + q by omega]
    exact h.pos
  · simp only [h.root]
    apply List.ext_getElem
    · simp only [List.length_drop, List.length_map, List.length_range]; omega
    · intro i _ _
      simp [show base + (acked - base + i) = acked + i by omega]
  · intro j hj
    change (alarmList ((acked + j) % seqLen)).isSet ≠ .unset ↔ _
    -- slots one revolution on are the ones the ack has just cleared
    by_cases inside : acked - base + j < seqLen
    · rw [shift, slots _ inside, if_neg (by omega), h.isSet _ inside]
      omega
    · have small : acked - base + j - seqLen < acked - base := by omega
      rw [wrapped j (by omega), slots _ (by dsimp only [seqLen] at *; omega), if_pos small]
      simp only [Alarm.clear, ne_eq, not_true_eq_false, false_iff, not_lt]
      dsimp only [seqLen] at inside
      omega
  · intro j hj
    change (alarmList ((acked + j) % seqLen)).size = _
    have inside : acked - base + j < seqLen := by dsimp only [seqLen]; omega
    rw [shift, slots _ inside, if_neg (by omega), h.size _ (by omega)]
    rw [show base + (acked - base + j) = acked + j by omega]
  · rw [show acked + (base + q - acked) = base + q by omega]
    exact h.lastWindow
  · have := h.created
    omega
  · dsimp only [windowLen]
    omega

/-- What the first half of an iteration did about an ack of the chunks before
`acked`: nothing if it was stale, else the base moved to `acked`, except on the
ack of the whole file, where the main loop is left. -/
structure AckResult (file : RegularFile) (base q acked time : ℕ) (s t : Sender) : Prop where
  moved : ∃ base' q', base ≤ base' ∧ base' + q' = base + q ∧ Aligned file base' q' t ∧
    (base' = base ∨ s.lastAckTime < time ∧ base' = acked)
  phase : t.phase = .pass 0 ∨ t.phase = .left ∧ acked = file.lastChunk + 1
  lastAckTime : t.lastAckTime = max s.lastAckTime time

/-- An ack whose number is that of the last chunk, once `last_window` is set,
acknowledges the whole file: both numbers lie in one window. -/
theorem Aligned.ackNum_eq_lastWindow (h : Aligned file base q s) {acked : ℕ} (fresh : base < acked)
    (sent : acked ≤ base + q) :
    (((acked + 15) % seqLen : ℕ) : ℤ) = s.lastWindow ↔ acked = file.lastChunk + 1 := by
  have last := h.lastWindow
  have created := h.created
  have unacked := h.unacked
  have window := h.window
  dsimp only [seqLen, windowLen] at *
  split_ifs at last with all <;> omega

/-- An ack numbered just below the window lies outside the arc of the window. -/
theorem Aligned.outside_window (h : Aligned file base q s) :
    between s.laSeq ((s.laSeq + windowLen - 1) % seqLen) ((base + 15) % seqLen) = false := by
  have start := h.laSeq
  unfold between
  dsimp only [seqLen, windowLen] at *
  split_ifs <;> simp <;> omega

/-- An ack numbered inside the window lies inside its arc. -/
theorem Aligned.inside_window (h : Aligned file base q s) {acked : ℕ} (fresh : base < acked)
    (sent : acked ≤ base + q) :
    between s.laSeq ((s.laSeq + windowLen - 1) % seqLen) ((acked + 15) % seqLen) = true := by
  have start := h.laSeq
  have window := h.window
  unfold between
  dsimp only [seqLen, windowLen] at *
  split_ifs <;> simp <;> omega

/-- The ack handler, given an ack of a number of chunks that is possible now. -/
theorem Aligned.handleAck (h : Aligned file base q s) {ack : Ack} {acked : ℕ}
    (number : ack.ackNum = (acked + 15) % seqLen) (sent : acked ≤ base + q)
    (possible : s.lastAckTime < ack.time → base ≤ acked) (now : Timeval) :
    AckResult file base q acked ack.time s (s.handleAck now ack) := by
  unfold Sender.handleAck
  by_cases fresh : s.lastAckTime < ack.time
  · have low := possible fresh
    have newer : ack.time = max s.lastAckTime ack.time := by omega
    have stamped : Aligned file base q { s with lastAckTime := ack.time } :=
      h.congr rfl rfl rfl rfl rfl rfl
    have valid : ¬ seqLen ≤ ack.ackNum := by
      rw [number]
      exact not_le.mpr (Nat.mod_lt _ (by decide))
    simp only [if_pos fresh, if_neg valid]
    -- a repeated ack carries the number just below the window
    rcases Nat.eq_or_lt_of_le low with rfl | advanced
    · rw [number, h.outside_window]
      exact ⟨⟨base, q, le_rfl, rfl, stamped.congr rfl rfl rfl rfl rfl rfl, .inl rfl⟩, .inl rfl, newer⟩
    · rw [number, h.inside_window advanced sent, if_pos rfl]
      by_cases whole : (((acked + 15) % seqLen : ℕ) : ℤ) = s.lastWindow
      · rw [if_pos whole]
        exact ⟨⟨base, q, le_rfl, rfl, stamped.congr rfl rfl rfl rfl rfl rfl, .inl rfl⟩,
          .inr ⟨rfl, (h.ackNum_eq_lastWindow advanced sent).mp whole⟩, newer⟩
      · rw [if_neg whole]
        have unfinished : acked ≤ file.lastChunk := by
          have := h.created
          have := mt (h.ackNum_eq_lastWindow advanced sent).mpr whole
          omega
        have accepted := stamped.acceptAck advanced sent unfinished
        have time : (Sender.acceptAck ((acked + 15) % seqLen)
            { s with lastAckTime := ack.time }).lastAckTime = ack.time := release_lastAckTime _ _
        -- the round trip time is written into the sender after the ack, whichever it is
        generalize Sender.acceptAck ((acked + 15) % seqLen) { s with lastAckTime := ack.time } = u
          at accepted time ⊢
        refine ⟨⟨acked, base + q - acked, low, by omega, ?_, .inr ⟨fresh, rfl⟩⟩, .inl rfl, ?_⟩
        · exact accepted.congr rfl rfl rfl rfl rfl rfl
        · exact time.trans newer
  · have older : s.lastAckTime = max s.lastAckTime ack.time := by omega
    rw [if_neg fresh]
    exact ⟨⟨base, q, le_rfl, rfl, h.congr rfl rfl rfl rfl rfl rfl, .inl rfl⟩, .inl rfl, older⟩

/-! ### The send pass -/

/-- Sending the frame of an outstanding slot again repeats its chunk. -/
theorem Aligned.transmit (h : Aligned file base q s) {j : ℕ} (hj : j < q) (now : Timeval) :
    Aligned file base q (s.transmit now ((base + j) % seqLen) (file.node (base + j))).1 ∧
      (s.transmit now ((base + j) % seqLen) (file.node (base + j))).2 = [file.frame (base + j)] := by
  have inside : j < seqLen := by
    have := h.window
    dsimp only [windowLen, seqLen] at *
    omega
  refine ⟨{ h with isSet := fun i hi => ?_, size := fun i hi => ?_ }, ?_⟩
  · by_cases here : i = j
    · subst here
      simp [Sender.transmit, hj]
    · rw [← h.isSet i hi]
      simp [Sender.transmit, Function.update_of_ne, (slot_eq_iff hi inside).not.mpr here]
  · have hi' : i < seqLen := by
      have := h.window
      dsimp only [windowLen, seqLen] at *
      omega
    rw [← h.size i hi]
    by_cases here : i = j
    · subst here
      simp [Sender.transmit]
    · simp [Sender.transmit, Function.update_of_ne, (slot_eq_iff hi' inside).not.mpr here]
  · simp only [Sender.transmit, h.size j hj, RegularFile.node_frame]

/-- While chunks are left, the file is read up to the first one that is not outstanding. -/
theorem Aligned.pos_eq (h : Aligned file base q s) (more : base + q ≤ file.lastChunk) :
    s.pos = (base + q) * bufLen := by
  have := h.pos
  dsimp only [RegularFile.lastChunk, bufLen] at *
  omega

/-- Creating a frame behind the outstanding ones appends the next chunk's node. -/
theorem Aligned.createFrame (h : Aligned file base q s) (more : base + q ≤ file.lastChunk) :
    s.createFrame file q ((base + q) % seqLen) =
      ({ s with
          root := s.root ++ [file.node (base + q)]
          packetId := (base + q + 1) % 2 ^ 32
          pos := min ((base + q + 1) * bufLen) file.size
          lastWindow := if file.lastChunk ≤ base + q then (((base + q) % seqLen : ℕ) : ℤ)
            else s.lastWindow
          alarmList := Function.update s.alarmList ((base + q) % seqLen)
            ((s.alarmList ((base + q) % seqLen)).resize (file.chunk (base + q)).length) },
        file.node (base + q)) := by
  have offset : s.pos = (base + q) * bufLen := h.pos_eq more
  have counted : (s.packetId + 1) % 2 ^ 32 = (base + q + 1) % 2 ^ 32 := by
    rw [h.packetId, Nat.mod_add_mod]
  have advanced : s.pos + file.readLen s.pos bufLen = min ((base + q + 1) * bufLen) file.size := by
    rw [offset, RegularFile.readLen]
    dsimp only [RegularFile.lastChunk, bufLen] at *
    omega
  have missing : (getK s.root q).isNone = true := by simp [h.root]
  -- a short read marks the last chunk
  have short : file.readLen s.pos bufLen < bufLen ↔ file.lastChunk ≤ base + q := by
    rw [offset]
    exact file.readLen_eq_bufLen_iff
  have read : file.read s.pos bufLen = file.chunk (base + q) := by rw [offset, RegularFile.chunk]
  have size : file.readLen s.pos bufLen = (file.chunk (base + q)).length := by
    rw [← read, RegularFile.length_read]
  have node : (⟨(base + q) % seqLen, if file.lastChunk ≤ base + q then 4 else 2,
      (base + q + 1) % 2 ^ 32, file.chunk (base + q)⟩ : SendNode) = file.node (base + q) := rfl
  simp only [Sender.createFrame, missing, if_true, enqueue_eq, List.getElem?_concat_length,
    Option.map_some, Option.getD_some, List.drop_nil, List.append_nil,
    List.set_append_right _ _ le_rfl, Nat.sub_self, List.set_cons_zero, advanced, counted, short,
    read, node]
  rw [size]

/-- The slot behind the outstanding ones gets the next chunk of the file. -/
theorem Aligned.sendNew (h : Aligned file base q s) (room : q < windowLen)
    (more : base + q ≤ file.lastChunk) (now : Timeval) :
    Aligned file base (q + 1) ((s.createFrame file q ((base + q) % seqLen)).1.transmit now
        ((base + q) % seqLen) (s.createFrame file q ((base + q) % seqLen)).2).1 ∧
      ((s.createFrame file q ((base + q) % seqLen)).1.transmit now
        ((base + q) % seqLen) (s.createFrame file q ((base + q) % seqLen)).2).2 =
          [file.frame (base + q)] := by
  have inside : q < seqLen := lt_trans room (by decide)
  have others : ∀ j < seqLen, j ≠ q → (base + j) % seqLen ≠ (base + q) % seqLen :=
    fun j hj ne => (slot_eq_iff hj inside).not.mpr ne
  rw [h.createFrame more]
  refine ⟨⟨h.laSeq, rfl, rfl, ?_, ?_, ?_, ?_, by omega, h.unacked, room⟩, ?_⟩
  · simp [Sender.transmit, h.root, List.range_succ]
  · intro j hj
    by_cases here : j = q
    · subst here
      simp [Sender.transmit]
    · have old := h.isSet j hj
      simp only [Sender.transmit, Function.update_of_ne (others j hj here)]
      rw [old]
      omega
  · intro j hj
    have hj' : j < seqLen := by omega
    by_cases here : j = q
    · subst here
      simp [Sender.transmit, Alarm.resize]
    · simp only [Sender.transmit, Function.update_of_ne (others j hj' here)]
      exact h.size j (by omega)
  · have last := h.lastWindow
    simp only [Sender.transmit]
    rw [if_neg (by omega)] at last
    rw [last]
    -- `last_window` is set with the last chunk and not before
    by_cases final : file.lastChunk ≤ base + q
    · have exact_end : file.lastChunk = base + q := by omega
      simp [exact_end, Nat.add_assoc]
    · rw [if_neg final, if_neg (by omega)]
  · simp [Sender.transmit, Alarm.resize, RegularFile.node_frame]

/-- Once the last chunk is created, the pass stops before the slot behind it,
although `last_window` is a reduced number and `i` is not. -/
theorem Aligned.pass_stops (h : Aligned file base q s)
    (all : base + q = file.lastChunk + 1) : s.lastWindow ≠ -1 ∧ s.lastWindow < (s.laSeq + q : ℕ) := by
  have last := h.lastWindow
  have start := h.laSeq
  have window := h.window
  have unacked := h.unacked
  rw [if_pos all] at last
  dsimp only [seqLen, windowLen] at *
  omega

/-- What a step of the send pass did: the sender stays aligned with `q'` chunks
outstanding, sent only frames of such chunks, and its program counter is behind
the slots it has looked at. -/
structure SlotResult (file : RegularFile) (base offset q' : ℕ) (s t : Sender)
    (sent : List Frame) : Prop where
  aligned : Aligned file base q' t
  frames : ∀ f ∈ sent, ∃ j < base + q', f = file.frame j
  phase : t.phase = .top ∨ t.phase = .pass (offset + 1) ∧ offset + 1 ≤ q' ∧ offset + 1 < windowLen
  lastAckTime : t.lastAckTime = s.lastAckTime

/-- The program counter behind a slot that did not end the pass. -/
theorem nextPhase_cases {offset q' : ℕ} (h : offset + 1 ≤ q') :
    (if offset + 1 < windowLen then SenderPhase.pass (offset + 1) else .top) = .top ∨
      (if offset + 1 < windowLen then SenderPhase.pass (offset + 1) else .top) =
        .pass (offset + 1) ∧ offset + 1 ≤ q' ∧ offset + 1 < windowLen := by
  split_ifs with more
  · exact .inr ⟨rfl, h, more⟩
  · exact .inl rfl

/-- What one slot of the send pass can do: nothing, or send a chunk again, or make and send
the frame of the next chunk. Afterwards `q'` chunks are outstanding. -/
inductive SlotMove (file : RegularFile) (base q offset : ℕ) (s : Sender) :
    ℕ → List Frame → Prop
  | quiet (creates : s.creates offset = false) : SlotMove file base q offset s q []
  | again (creates : s.creates offset = false) (sent : offset < q) :
    SlotMove file base q offset s q [file.frame (base + offset)]
  | next (creates : s.creates offset = true) (here : offset = q)
    (more : base + q ≤ file.lastChunk) :
    SlotMove file base q offset s (q + 1) [file.frame (base + offset)]

theorem SlotMove.le {offset q' : ℕ} {sent : List Frame}
    (h : SlotMove file base q offset s q' sent) : q ≤ q' := by
  cases h <;> omega

/-- One slot of the send pass, all of whose earlier slots are armed. -/
theorem Aligned.slotMove (h : Aligned file base q s) {offset : ℕ} (hoffset : offset ≤ q)
    (hwindow : offset < windowLen) (now : Timeval) :
    ∃ q', SlotMove file base q offset s q' (s.sendSlot file now offset).2 ∧
      SlotResult file base offset q' s (s.sendSlot file now offset).1
        (s.sendSlot file now offset).2 := by
  have inside : offset < seqLen := lt_trans hwindow (by decide)
  have slot : (s.laSeq + offset) % seqLen = (base + offset) % seqLen := by
    rw [h.laSeq, Nat.mod_add_mod]
  have armed := h.isSet offset inside
  simp only [Sender.sendSlot, slot]
  by_cases stop : s.lastWindow ≠ -1 ∧ s.lastWindow < ((s.laSeq + offset : ℕ) : ℤ)
  · have creates : s.creates offset = false := by
      rw [Sender.creates, decide_eq_true stop, Bool.not_true, Bool.false_and]
    rw [if_pos stop]
    exact ⟨q, .quiet creates, h.congr rfl rfl rfl rfl rfl rfl, by simp, .inl rfl, rfl⟩
  have creates : s.creates offset =
      decide ((s.alarmList ((base + offset) % seqLen)).isSet = .unset) := by
    rw [Sender.creates, decide_eq_false stop, Bool.not_false, Bool.true_and, slot]
  rw [if_neg stop]
  cases flag : (s.alarmList ((base + offset) % seqLen)).isSet with
  | waiting =>
    rw [flag] at creates armed
    have sent : offset < q := armed.mp (by simp)
    exact ⟨q, .quiet creates, h.congr rfl rfl rfl rfl rfl rfl, by simp, nextPhase_cases sent, rfl⟩
  | timedOut =>
    rw [flag] at creates armed
    have sent : offset < q := armed.mp (by simp)
    have node : getK s.root offset = some (file.node (base + offset)) := by
      simp [h.root, sent]
    have moved : Aligned file base q { s with
        phase := if offset + 1 < windowLen then .pass (offset + 1) else .top } :=
      h.congr rfl rfl rfl rfl rfl rfl
    obtain ⟨aligned, frames⟩ := moved.transmit sent now
    simp only [node, frames]
    refine ⟨q, .again creates sent, aligned, ?_, nextPhase_cases sent, rfl⟩
    simpa using ⟨base + offset, by omega, rfl⟩
  | unset =>
    rw [flag] at creates armed
    -- the armed slots come first, so that an empty one is the next chunk's
    obtain rfl : offset = q := by
      have := mt armed.mpr (by simp)
      omega
    have more : base + offset ≤ file.lastChunk := by
      -- behind the last chunk the pass has stopped
      by_contra all
      exact stop (h.pass_stops (by have := h.created; omega))
    have moved : Aligned file base offset { s with
        phase := if offset + 1 < windowLen then .pass (offset + 1) else .top } :=
      h.congr rfl rfl rfl rfl rfl rfl
    obtain ⟨aligned, frames⟩ := moved.sendNew hwindow more now
    simp only [frames]
    refine ⟨offset + 1, .next creates rfl more, aligned, ?_, nextPhase_cases le_rfl, rfl⟩
    simpa using ⟨base + offset, by omega, rfl⟩

theorem Aligned.sendSlot (h : Aligned file base q s) {offset : ℕ} (hoffset : offset ≤ q)
    (hwindow : offset < windowLen) (now : Timeval) :
    ∃ q', q ≤ q' ∧ SlotResult file base offset q' s (s.sendSlot file now offset).1
      (s.sendSlot file now offset).2 := by
  obtain ⟨q', move, result⟩ := h.slotMove hoffset hwindow now
  exact ⟨q', move.le, result⟩

end Sender

end ComputerNetworks.Transfer
