import ComputerNetworks.Transfer.Datagram
import ComputerNetworks.Transfer.Invariant
import ComputerNetworks.Transfer.Resend

/-!
# What the sender reads, creates and sends

The sender by itself, with any acks whatever of chunks it has sent. An ack that is taken
acknowledges the slots from `la_seq` up to its own number; one that is stale or whose number
lies outside the window acknowledges nothing. A ledger records every read of the file, every
frame that is made and every frame that is sent.
-/

namespace ComputerNetworks.Transfer

open Lib

namespace Sender

variable {file : RegularFile} {base q : ℕ} {s : Sender}

/-- The ack handler, given any ack that acknowledges outstanding chunks only. -/
theorem Aligned.handleAck_outstanding (h : Aligned file base q s) (ack : Ack)
    (outstanding : ∀ j < windowLen, s.Releases (some ack) ((s.laSeq + j) % seqLen) → j < q)
    (now : Timeval) :
    ∃ base' q', base ≤ base' ∧ base' + q' = base + q ∧
      Aligned file base' q' (s.handleAck now ack) ∧
      ((s.handleAck now ack).phase = .pass 0 ∨ (s.handleAck now ack).phase = .top ∨
        (s.handleAck now ack).phase = .left ∧ base + q = file.lastChunk + 1) := by
  have small : s.laSeq < seqLen := h.laSeq ▸ Nat.mod_lt _ (by decide)
  by_cases taken : s.lastAckTime < ack.time ∧ ack.ackNum < seqLen ∧
      between s.laSeq ((s.laSeq + windowLen - 1) % seqLen) ack.ackNum = true
  · obtain ⟨fresh, valid, inside⟩ := taken
    obtain ⟨m, positive, short, number⟩ := between_window small valid inside
    -- the slot of the ack itself is outstanding
    have own : m - 1 < q := by
      refine outstanding (m - 1) (by omega) ⟨ack, rfl, fresh, valid, inside, ?_⟩
      rw [number, between_arc small positive short (by omega)]
      omega
    have acked : ack.ackNum = (base + m + 15) % seqLen := by
      rw [number, h.laSeq]
      dsimp only [seqLen]
      omega
    obtain ⟨⟨base', q', forward, total, aligned, -⟩, phase, -⟩ :=
      h.handleAck acked (by omega) (fun _ => Nat.le_add_right _ _) now
    refine ⟨base', q', forward, total, aligned, ?_⟩
    rcases phase with pass | ⟨left, all⟩
    · exact .inl pass
    · have created := h.created
      exact .inr (.inr ⟨left, by omega⟩)
  · -- nothing but clocks and the program counter changes
    refine ⟨base, q, le_rfl, rfl, ?_⟩
    unfold Sender.handleAck
    by_cases fresh : s.lastAckTime < ack.time
    · by_cases valid : seqLen ≤ ack.ackNum
      · simp only [if_pos fresh, if_pos valid]
        exact ⟨h.congr rfl rfl rfl rfl rfl rfl, .inr (.inl trivial)⟩
      · have outside : between s.laSeq ((s.laSeq + windowLen - 1) % seqLen) ack.ackNum = false := by
          rw [← Bool.not_eq_true]
          exact fun inside => taken ⟨fresh, not_le.mp valid, inside⟩
        simp only [if_pos fresh, if_neg valid, outside]
        exact ⟨h.congr rfl rfl rfl rfl rfl rfl, .inl rfl⟩
    · rw [if_neg fresh]
      exact ⟨h.congr rfl rfl rfl rfl rfl rfl, .inl rfl⟩

end Sender

/-- The sender and what it has done. -/
structure Ledger where
  sender : Sender
  /-- The number of chunks that have been acknowledged; it unwraps `la_seq`. -/
  acked : ℕ
  /-- The position in the file and the bytes of every `fread`. -/
  reads : List (ℕ × List UInt8)
  /-- Every frame at the time it is made. -/
  created : List SendNode
  /-- The chunk that the slot is for and the frame, of every `sendto` in the main loop. -/
  sent : List (ℕ × Frame)

/-- What the sender can do next. -/
inductive SendAction
  /-- An iteration of the loop that announces the file name. -/
  | name (now : Timeval) (recv : Option Ack)
  /-- The first half of an iteration of the main loop. -/
  | poll (scan : ℕ → Timeval) (recv : Option Ack) (now : Timeval)
  /-- One slot of the send pass. -/
  | slot (now : Timeval)

/-- The ack that the main loop receives. -/
def SendAction.ack : SendAction → Option Ack
  | .poll _ recv _ => recv
  | _ => none

namespace Ledger

def start : Ledger := ⟨.start, 0, [], [], []⟩

/-- The sender moved to `s`. -/
def moved (ledger : Ledger) (s : Sender) : Ledger :=
  { ledger with sender := s, acked := unwrap seqLen ledger.acked s.laSeq }

/-- The send pass looks at the slot `offset` places into the window. -/
def pass (file : RegularFile) (now : Timeval) (offset : ℕ) (ledger : Ledger) : Ledger :=
  let s := ledger.sender
  let result := s.sendSlot file now offset
  let new := s.creates offset
  { sender := result.1
    acked := ledger.acked
    reads := ledger.reads ++ if new then [(s.pos, file.read s.pos bufLen)] else []
    created := ledger.created ++
      if new then [(s.createFrame file offset ((s.laSeq + offset) % seqLen)).2] else []
    sent := ledger.sent ++ result.2.map fun frame => (ledger.acked + offset, frame) }

/-- The transition function; `none` when the action is not possible. -/
def step (job : Job) (ledger : Ledger) : SendAction → Option Ledger
  | .name now recv =>
    if ledger.sender.phase = .naming then
      some (ledger.moved (ledger.sender.nameIteration job now recv).1)
    else none
  | .poll scan recv now =>
    if ledger.sender.phase = .top then some (ledger.moved (ledger.sender.poll scan recv now))
    else none
  | .slot now =>
    match ledger.sender.phase with
    | .pass offset => some (ledger.pass job.file now offset)
    | _ => none

/-- The ack of this step acknowledges chunks only for which a frame has been sent already. -/
def AcksSent (ledger : Ledger) (action : SendAction) (_ : Ledger) : Prop :=
  ∀ j < windowLen,
    ledger.sender.Releases action.ack ((ledger.sender.laSeq + j) % seqLen) →
      ∃ frame, (ledger.acked + j, frame) ∈ ledger.sent

theorem acksSent_of_no_ack {ledger next : Ledger} {action : SendAction}
    (silent : action.ack = none) : ledger.AcksSent action next := by
  rintro j - ⟨ack, here, -⟩
  rw [silent] at here
  cases here

/-- Flags, queue, reads, frames and datagrams belong together. -/
structure Bookkeeping (file : RegularFile) (ledger : Ledger) : Prop where
  window : ∃ q ≤ windowLen,
    (∀ j < seqLen,
      (ledger.sender.alarmList ((ledger.sender.laSeq + j) % seqLen)).isSet ≠ .unset ↔ j < q) ∧
    ledger.sender.root.length = q ∧
    (∀ j node, ledger.sender.root[j]? = some node →
      node.seqNum = (ledger.sender.laSeq + j) % seqLen ∧
        ledger.created[ledger.acked + j]? = some node) ∧
    ∀ j node next, ledger.sender.root[j]? = some node → ledger.sender.root[j + 1]? = some next →
      next.packetId = (node.packetId + 1) % 2 ^ 32
  /-- Whenever a chunk is sent, its datagram is the same. -/
  identical : ∀ i first again, (i, first) ∈ ledger.sent → (i, again) ∈ ledger.sent →
    ∀ memory memory', again.encode memory = first.encode memory'
  /-- The chunks are read one by one, the `i`-th one for the `i`-th frame. -/
  reads : ledger.reads =
    (List.range ledger.created.length).map fun i => (i * bufLen, file.chunk i)
  carried : ledger.created.map SendNode.data = ledger.reads.map Prod.snd
  last : ∀ i node, ledger.created[i]? = some node → node.type = 4 → i + 1 = ledger.created.length
  whole : ledger.sender.phase = .left → ledger.created.length = file.lastChunk + 1

/-! ### The invariant of a run -/

/-- The sender is aligned with `q` chunks outstanding, and the records go up to the last
one of them. -/
structure Kept (file : RegularFile) (q : ℕ) (ledger : Ledger) : Prop where
  aligned : ledger.sender.Aligned file ledger.acked q
  counter : ∀ offset, ledger.sender.phase = .pass offset → offset ≤ q ∧ offset < windowLen
  reads : ledger.reads = (List.range (ledger.acked + q)).map fun i => (i * bufLen, file.chunk i)
  created : ledger.created = (List.range (ledger.acked + q)).map file.node
  sent : ∀ entry ∈ ledger.sent, entry.1 < ledger.acked + q ∧ entry.2 = file.frame entry.1
  left : ledger.sender.phase = .left → ledger.acked + q = file.lastChunk + 1

variable {file : RegularFile} {job : Job} {ledger next : Ledger} {q : ℕ}

theorem Kept.start (file : RegularFile) : Kept file 0 start where
  aligned := Sender.Aligned.start file
  counter := by simp [Ledger.start, Sender.start]
  reads := rfl
  created := rfl
  sent := by simp [Ledger.start]
  left := by simp [Ledger.start, Sender.start]

/-- A move outside of the send pass records nothing. -/
theorem Kept.moved (h : ledger.Kept file q) {s : Sender} {base q' : ℕ}
    (aligned : s.Aligned file base q') (forward : ledger.acked ≤ base)
    (total : base + q' = ledger.acked + q)
    (counter : ∀ offset, s.phase = .pass offset → offset = 0)
    (left : s.phase = .left → ledger.acked + q = file.lastChunk + 1) :
    (ledger.moved s).Kept file q' := by
  have window := h.aligned.window
  -- the new base is less than one revolution away
  have acked : (ledger.moved s).acked = base := by
    change unwrap seqLen ledger.acked s.laSeq = base
    rw [aligned.laSeq]
    apply unwrap_mod forward
    dsimp only [windowLen, seqLen] at *
    omega
  refine ⟨acked ▸ aligned, fun offset at_offset => ?_, ?_, ?_, ?_, fun at_end => ?_⟩
  · rw [counter offset at_offset]
    exact ⟨Nat.zero_le _, by decide⟩
  · rw [acked, total]
    exact h.reads
  · rw [acked, total]
    exact h.created
  · rw [acked, total]
    exact h.sent
  · rw [acked, total]
    exact left at_end

theorem Kept.name (h : ledger.Kept file q) (naming : ledger.sender.phase = .naming)
    (now : Timeval) (recv : Option Ack) :
    (ledger.moved (ledger.sender.nameIteration job now recv).1).Kept file q := by
  obtain ⟨phase, firstTime, startSec, startUsec, lastAckTime, out, changed, phases, -, -⟩ :=
    System.nameIteration_spec ledger.sender job now recv
  rw [changed]
  rw [naming] at phases
  refine h.moved (h.aligned.congr rfl rfl rfl rfl rfl rfl) le_rfl rfl (fun offset at_offset => ?_)
    (fun at_end => ?_)
  · rcases phases with bad | bad <;> cases bad.symm.trans at_offset
  · rcases phases with bad | bad <;> cases bad.symm.trans at_end

theorem Kept.poll (h : ledger.Kept file q) {scan : ℕ → Timeval} {recv : Option Ack}
    {now : Timeval} (acks : ledger.AcksSent (.poll scan recv now) next) :
    ∃ q', (ledger.moved (ledger.sender.poll scan recv now)).Kept file q' := by
  have scanned := h.aligned.checkTimeout scan
  cases recv with
  | none =>
    rw [Sender.poll_none]
    generalize ledger.sender.checkTimeout scan = u at scanned ⊢
    have aligned : Sender.Aligned file ledger.acked q { u with phase := .pass 0 } :=
      scanned.congr rfl rfl rfl rfl rfl rfl
    refine ⟨q, h.moved aligned le_rfl rfl (fun offset at_offset => ?_) (fun at_end => ?_)⟩
    · cases at_offset
      rfl
    · cases at_end
  | some ack =>
    obtain ⟨alarmList, same, -⟩ := Sender.checkTimeout_spec scan ledger.sender
    rw [Sender.poll_some]
    have outstanding : ∀ j < windowLen, (ledger.sender.checkTimeout scan).Releases (some ack)
        (((ledger.sender.checkTimeout scan).laSeq + j) % seqLen) → j < q := by
      intro j hj releases
      rw [same] at releases
      obtain ⟨frame, entry⟩ := acks j hj releases
      have := (h.sent _ entry).1
      omega
    generalize ledger.sender.checkTimeout scan = u at scanned outstanding ⊢
    obtain ⟨base, q', forward, total, aligned, phase⟩ :=
      scanned.handleAck_outstanding ack outstanding now
    refine ⟨q', h.moved aligned forward total (fun offset at_offset => ?_) (fun at_end => ?_)⟩
    · rcases phase with pass | top | ⟨left, -⟩
      · cases pass.symm.trans at_offset
        rfl
      · cases top.symm.trans at_offset
      · cases left.symm.trans at_offset
    · rcases phase with pass | top | ⟨-, all⟩
      · cases pass.symm.trans at_end
      · cases top.symm.trans at_end
      · exact all

theorem Kept.pass (h : ledger.Kept file q) {offset : ℕ}
    (at_offset : ledger.sender.phase = .pass offset) (now : Timeval) :
    ∃ q', (ledger.pass file now offset).Kept file q' := by
  obtain ⟨behind, inside⟩ := h.counter offset at_offset
  obtain ⟨q', move, result⟩ := h.aligned.slotMove behind inside now
  have counter : ∀ offset', (ledger.pass file now offset).sender.phase = .pass offset' →
      offset' ≤ q' ∧ offset' < windowLen := by
    intro offset' next
    rcases result.phase with top | ⟨pass, armed, more⟩
    · cases top.symm.trans next
    · cases pass.symm.trans next
      exact ⟨armed, more⟩
  have left : (ledger.pass file now offset).sender.phase ≠ .left := by
    intro at_end
    rcases result.phase with top | ⟨pass, -, -⟩
    · cases top.symm.trans at_end
    · cases pass.symm.trans at_end
  have aligned : (ledger.pass file now offset).sender.Aligned file ledger.acked q' := result.aligned
  have acked : (ledger.pass file now offset).acked = ledger.acked := rfl
  have reads : (ledger.pass file now offset).reads = ledger.reads ++
    if ledger.sender.creates offset
    then [(ledger.sender.pos, file.read ledger.sender.pos bufLen)] else [] := rfl
  have created : (ledger.pass file now offset).created = ledger.created ++
    if ledger.sender.creates offset
    then [(ledger.sender.createFrame file offset ((ledger.sender.laSeq + offset) % seqLen)).2]
    else [] := rfl
  have sent : (ledger.pass file now offset).sent = ledger.sent ++
    (ledger.sender.sendSlot file now offset).2.map fun frame => (ledger.acked + offset, frame) := rfl
  generalize (ledger.sender.sendSlot file now offset).2 = frames at move sent
  generalize ledger.pass file now offset = after at *
  refine ⟨q', acked ▸ aligned, counter, ?_, ?_, ?_, fun at_end => absurd at_end left⟩
  · rw [reads, h.reads, acked]
    cases move with
    | quiet creates => simp [creates]
    | again creates => simp [creates]
    | next creates here more =>
      have pos : ledger.sender.pos = (ledger.acked + q) * bufLen := h.aligned.pos_eq more
      simp [creates, pos, ← Nat.add_assoc, List.range_succ, RegularFile.chunk]
  · rw [created, h.created, acked]
    cases move with
    | quiet creates => simp [creates]
    | again creates => simp [creates]
    | next creates here more =>
      subst here
      have slot : (ledger.sender.laSeq + offset) % seqLen = (ledger.acked + offset) % seqLen := by
        rw [h.aligned.laSeq, Nat.mod_add_mod]
      simp [creates, slot, h.aligned.createFrame more, ← Nat.add_assoc, List.range_succ]
  · intro entry member
    rw [acked]
    rw [sent, List.mem_append] at member
    rcases member with old | new
    · obtain ⟨small, frame⟩ := h.sent entry old
      have := move.le
      exact ⟨by omega, frame⟩
    · cases move with
      | quiet => simp at new
      | again creates armed =>
        obtain rfl : entry = (ledger.acked + offset, file.frame (ledger.acked + offset)) := by
          simpa using new
        exact ⟨Nat.add_lt_add_left armed _, rfl⟩
      | next creates here more =>
        obtain rfl : entry = (ledger.acked + offset, file.frame (ledger.acked + offset)) := by
          simpa using new
        exact ⟨by dsimp only; omega, rfl⟩

/-- A step whose ack acknowledges sent chunks keeps the records. -/
theorem Kept.step (h : ledger.Kept job.file q) {action : SendAction}
    (stepped : step job ledger action = some next) (acks : ledger.AcksSent action next) :
    ∃ q', next.Kept job.file q' := by
  cases action with
  | name now recv =>
    simp only [Ledger.step] at stepped
    split_ifs at stepped with naming
    cases stepped
    exact ⟨q, h.name naming now recv⟩
  | poll scan recv now =>
    simp only [Ledger.step] at stepped
    split_ifs at stepped
    cases stepped
    exact h.poll acks
  | slot now =>
    simp only [Ledger.step] at stepped
    split at stepped
    next offset at_offset =>
      cases stepped
      exact h.pass at_offset now
    next => cases stepped

/-! ### The books -/

theorem Kept.length_created (h : ledger.Kept file q) : ledger.created.length = ledger.acked + q := by
  rw [h.created, List.length_map, List.length_range]

theorem Kept.bookkeeping (h : ledger.Kept file q) : ledger.Bookkeeping file := by
  have size := h.length_created
  have bound := h.aligned.created
  have base : ∀ j, (ledger.sender.laSeq + j) % seqLen = (ledger.acked + j) % seqLen := by
    intro j
    rw [h.aligned.laSeq, Nat.mod_add_mod]
  have nodes : ∀ j node, ledger.sender.root[j]? = some node →
      j < q ∧ node = file.node (ledger.acked + j) := by
    intro j node found
    rw [h.aligned.root] at found
    obtain ⟨inside, rfl⟩ := List.getElem?_eq_some_iff.mp found
    rw [List.length_map, List.length_range] at inside
    exact ⟨inside, by simp⟩
  have frames : ∀ i node, ledger.created[i]? = some node →
      i < ledger.acked + q ∧ node = file.node i := by
    intro i node found
    rw [h.created] at found
    obtain ⟨inside, rfl⟩ := List.getElem?_eq_some_iff.mp found
    rw [List.length_map, List.length_range] at inside
    exact ⟨inside, by simp⟩
  refine ⟨⟨q, h.aligned.window, ?_, ?_, ?_, ?_⟩, ?_, ?_, ?_, ?_, ?_⟩
  · intro j hj
    rw [base]
    exact h.aligned.isSet j hj
  · rw [h.aligned.root, List.length_map, List.length_range]
  · intro j node found
    obtain ⟨inside, rfl⟩ := nodes j node found
    refine ⟨(base j).symm, ?_⟩
    rw [h.created, List.getElem?_map, List.getElem?_range (Nat.add_lt_add_left inside _)]
    rfl
  · intro j node next found found'
    obtain ⟨-, rfl⟩ := nodes j node found
    obtain ⟨-, rfl⟩ := nodes (j + 1) next found'
    change (ledger.acked + (j + 1) + 1) % 2 ^ 32 = ((ledger.acked + j + 1) % 2 ^ 32 + 1) % 2 ^ 32
    rw [Nat.mod_add_mod, Nat.add_assoc ledger.acked j 1]
  · intro i first again hfirst hagain memory memory'
    obtain rfl : first = file.frame i := (h.sent _ hfirst).2
    obtain rfl : again = file.frame i := (h.sent _ hagain).2
    have short : (file.frame i).payload.length ≤ 65525 :=
      (file.length_chunk_le i).trans (by decide)
    rw [Frame.encode_eq _ _ short, Frame.encode_eq _ _ short]
  · rw [size]
    exact h.reads
  · rw [h.created, h.reads, List.map_map, List.map_map]
    rfl
  · intro i node found last
    obtain ⟨inside, rfl⟩ := frames i node found
    have final : file.lastChunk ≤ i := by
      by_contra more
      simp [RegularFile.node, RegularFile.frameType, more] at last
    omega
  · intro at_end
    rw [size]
    exact h.left at_end

/-- In every state that the sender reaches, under acks of sent chunks only, the flags of the
window, the queue, the reads of the file and everything that is sent agree. -/
theorem bookkeeping_of_run {as : List SendAction} (run : exec (Ledger.step job) start as = some ledger)
    (acks : EachStep (Ledger.step job) AcksSent start as) : ledger.Bookkeeping job.file := by
  have kept : ∃ q, ledger.Kept job.file q := by
    refine EachStep.invariant (I := fun t : Ledger => ∃ q, t.Kept job.file q) ?_
      ⟨0, Kept.start job.file⟩ acks run
    rintro s action t ⟨q, h⟩ stepped here
    exact h.step stepped here
  obtain ⟨q, h⟩ := kept
  exact h.bookkeeping

/-- A file of a full chunk and three bytes. -/
def resentJob : Job := ⟨⟨bufLen + 3, fun _ => 0⟩, []⟩

/-- The name is acknowledged, the file is sent in two frames, and both are sent again. -/
def resentRun : List SendAction :=
  [.name ⟨0, 0⟩ (some ⟨15, 1, 0, 1⟩), .poll (fun _ => ⟨0, 0⟩) none ⟨0, 0⟩] ++
    List.replicate 3 (.slot ⟨0, 0⟩) ++ [.poll (fun _ => ⟨0, 6000⟩) none ⟨0, 6000⟩] ++
    List.replicate 3 (.slot ⟨0, 6000⟩)

/-- The ack of the second frame acknowledges slots 0 and 1. -/
theorem acksSent_resentRun {ledger next : Ledger} (laSeq : ledger.sender.laSeq = 0)
    (acked : ledger.acked = 0) (sent : ledger.sent.map Prod.fst = [0, 1, 0, 1])
    {scan : ℕ → Timeval} {now : Timeval} :
    ledger.AcksSent (.poll scan (some ⟨1, 1, 0, 2⟩) now) next := by
  rintro j hj ⟨ack, ⟨⟩, -, -, -, arc⟩
  have small : ledger.sender.laSeq < seqLen := by
    rw [laSeq]
    decide
  have number : (ledger.sender.laSeq + 2 - 1) % seqLen = 1 := by
    rw [laSeq]
    rfl
  have own : j < 2 := (Sender.between_arc small (by decide) (by decide) hj).mp (number.symm ▸ arc)
  have member : j ∈ ledger.sent.map Prod.fst := by
    rw [sent]
    simp only [List.mem_cons, List.not_mem_nil, or_false]
    omega
  obtain ⟨⟨_, frame⟩, listed, rfl⟩ := List.mem_map.mp member
  rw [acked, Nat.zero_add]
  exact ⟨frame, listed⟩

theorem bookkeeping_of_resentRun : ∃ ledger,
    exec (Ledger.step resentJob) start
      (resentRun ++ [.poll (fun _ => ⟨0, 6001⟩) (some ⟨1, 1, 0, 2⟩) ⟨0, 6001⟩]) = some ledger ∧
    ledger.sent.map Prod.fst = [0, 1, 0, 1] ∧ ledger.sender.phase = .left ∧
    ledger.Bookkeeping resentJob.file := by
  have evaluated : (exec (Ledger.step resentJob) start resentRun).map
      (fun ledger => (ledger.sender.laSeq, ledger.acked, ledger.sent.map Prod.fst)) =
        some (0, 0, [0, 1, 0, 1]) := by decide +kernel
  have evaluated' : (exec (Ledger.step resentJob) start
      (resentRun ++ [.poll (fun _ => ⟨0, 6001⟩) (some ⟨1, 1, 0, 2⟩) ⟨0, 6001⟩])).map
        (fun ledger => (ledger.sent.map Prod.fst, ledger.sender.phase)) =
          some ([0, 1, 0, 1], .left) := by decide +kernel
  obtain ⟨before, run, reached⟩ := Option.map_eq_some_iff.mp evaluated
  obtain ⟨ledger, whole, last⟩ := Option.map_eq_some_iff.mp evaluated'
  rw [Prod.mk.injEq, Prod.mk.injEq] at reached
  rw [Prod.mk.injEq] at last
  refine ⟨ledger, whole, last.1, last.2, bookkeeping_of_run whole ?_⟩
  have silent : EachStep (Ledger.step resentJob) AcksSent start resentRun := by
    refine EachStep.of_forall fun action member l l' => acksSent_of_no_ack ?_
    revert action
    decide
  exact silent.append run fun _ _ =>
    ⟨acksSent_resentRun reached.1 reached.2.1 reached.2.2, trivial⟩

end Ledger

end ComputerNetworks.Transfer
